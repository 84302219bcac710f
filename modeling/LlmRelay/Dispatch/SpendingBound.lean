import LlmRelay.Dispatch.LaneCadence

/-!
# What the lane cadence spends

Every probe spends the quota of its lane. The commands of a cadence run one at a time, a bucket is
probed while it is dead only, and its probes and the catalog runs keep their intervals, as long as
one bucket is due at a time, its death outlasts the catalog run before its probe, and no bucket that
still has its stamp dies anew.

## Main definitions

* `Ledger`: the clock, the poke that saw each death first and the last starts;
* `Within`: what a step may spend;
* `InTurn`: when it spends no more;
* `Spent`: what the stamps say of the ledger.

## Main results

* `Spent.step`: one step;
* `spending_bounded`: every run.
-/

namespace LlmRelay.LaneCadence

open Ecma

/-! ## The stamps -/

variable {m : Cooldowns} {now : ℚ} {key k : Text}

theorem Dead.mono {now' : ℚ} (h : Dead m now' key) (hle : now ≤ now') : Dead m now key :=
  let ⟨ends, hget, hlt⟩ := h
  ⟨ends, hget, hle.trans_lt hlt⟩

theorem Dead.of_delete (h : Dead (clearExhaustedKey m key) now k) : Dead m now k := by
  obtain ⟨ends, hget, hlt⟩ := h
  rw [clearExhaustedKey, OrderedMap.get?_delete] at hget
  split at hget
  · cases hget
  · exact ⟨ends, hget, hlt⟩

theorem Dead.of_mark {untilMs at_ : ℚ} (hne : key ≠ k)
    (h : Dead (markExhaustedKey m key untilMs at_) now k) : Dead m now k := by
  obtain ⟨ends, hget, hlt⟩ := h
  rw [markExhaustedKey] at hget
  split at hget
  · exact ⟨ends, hget, hlt⟩
  · rw [OrderedMap.get?_set, if_neg hne] at hget
    exact ⟨ends, hget, hlt⟩

variable {c : Cadence}

/-- A verdict ends its probe, and stamps nothing. -/
theorem step_probeDone {cfg : Config} {startedAt : ℚ}
    (hrun : c.running.get? key = some startedAt) (verdict : Option LaneQuotaVerdict) :
    (step cfg c (.probeDone key verdict)).inFlight = .quota (c.running.delete key)
      ∧ (step cfg c (.probeDone key verdict)).lastCatalogRunAt = c.lastCatalogRunAt
      ∧ ∀ k s, (step cfg c (.probeDone key verdict)).quotaAttemptAt.get? k = some s →
        c.quotaAttemptAt.get? k = some s := by
  simp only [step, hrun]
  rcases verdict with _ | _ | ⟨_, _⟩ | _ <;> refine ⟨rfl, rfl, fun k s hs => ?_⟩
  · exact hs
  · dsimp only [applyVerdict] at hs
    rw [OrderedMap.get?_delete] at hs
    split at hs
    · cases hs
    · exact hs
  · exact hs
  · exact hs

theorem get?_stampAll (clock : Text → ℚ) (m : OrderedMap Text ℚ) (keys : List Text) (k : Text) :
    (stampAll clock m keys).get? k = if k ∈ keys then some (clock k) else m.get? k := by
  induction keys generalizing m with
  | nil => rfl
  | cons key keys ih =>
    refine (ih _).trans ?_
    by_cases hk : key = k
    · subst hk
      simp
    · simp [OrderedMap.get?_set, hk, Ne.symm hk]

variable (cfg : Config)

theorem get?_stampOrDue (now : ℚ) (due : List Text × OrderedMap Text ℚ)
    (key k : Text) : (stampOrDue cfg now due key).2.get? k
      = if key = k then some ((due.2.get? k).getD now) else due.2.get? k := by
  rw [stampOrDue]
  split
  · next hnone =>
    rw [OrderedMap.get?_set]
    split
    · next hk => rw [← hk, hnone, Option.getD_none]
    · rfl
  · next stamp hstamp =>
    rw [apply_ite Prod.snd, ite_self]
    split
    · next hk => rw [← hk, hstamp, Option.getD_some]
    · rfl

theorem get?_foldl_stampOrDue (now : ℚ) (keys : List Text)
    (due : List Text × OrderedMap Text ℚ) (k : Text) :
    (keys.foldl (stampOrDue cfg now) due).2.get? k
      = if k ∈ keys then some ((due.2.get? k).getD now) else due.2.get? k := by
  induction keys generalizing due with
  | nil => rfl
  | cons key keys ih =>
    rw [List.foldl_cons, ih, get?_stampOrDue]
    by_cases hk : key = k
    · simp [hk]
    · simp [hk, Ne.symm hk]

theorem old_of_mem_foldl_stampOrDue (now : ℚ) (keys : List Text)
    (due : List Text × OrderedMap Text ℚ) (h : k ∈ (keys.foldl (stampOrDue cfg now) due).1) :
    k ∈ due.1 ∨ k ∈ keys ∧ cfg.quotaIntervalMs ≤ now - (due.2.get? k).getD now := by
  induction keys generalizing due with
  | nil => exact .inl h
  | cons key keys ih =>
    rcases ih _ h with hdue | ⟨hkeys, hold⟩
    · rw [stampOrDue] at hdue
      split at hdue
      · exact .inl hdue
      · next stamp hstamp =>
        split at hdue
        · next hold =>
          rcases List.mem_append.mp hdue with hdue | hk
          · exact .inl hdue
          · rw [List.mem_singleton.mp hk, hstamp]
            exact .inr ⟨List.mem_cons_self, hold⟩
        · exact .inl hdue
    · refine .inr ⟨List.mem_cons_of_mem _ hkeys, ?_⟩
      rw [get?_stampOrDue] at hold
      split at hold <;> exact hold

/-- The stamps after a poke: the dead buckets have one. -/
theorem get?_quotaDue (c : Cadence) (now : ℚ) (k : Text) :
    (quotaDue cfg c now).2.get? k
      = if Dead c.cooldowns now k then some ((c.quotaAttemptAt.get? k).getD now) else none := by
  have hdead : k ∈ (exportExhaustedRows c.cooldowns now).map Prod.fst ↔ Dead c.cooldowns now k :=
    mem_exportExhaustedRows
  rw [quotaDue, get?_foldl_stampOrDue, OrderedMap.get?_filterKeys]
  by_cases hk : Dead c.cooldowns now k
  · simp [hk, hdead.mpr hk]
  · simp [hk, mt hdead.mp hk]

theorem quotaDue_old {cfg : Config} (h : k ∈ (quotaDue cfg c now).1) :
    Dead c.cooldowns now k
      ∧ ∃ s, (quotaDue cfg c now).2.get? k = some s ∧ s + cfg.quotaIntervalMs ≤ now := by
  obtain hnil | ⟨hkeys, hold⟩ := old_of_mem_foldl_stampOrDue _ _ _ _ h
  · cases hnil
  have hdead := mem_exportExhaustedRows.mp hkeys
  refine ⟨hdead, _, by rw [get?_quotaDue, if_pos hdead], ?_⟩
  rw [OrderedMap.get?_filterKeys, if_pos (decide_eq_true hkeys)] at hold
  linarith

/-! ## The ledger -/

/-- The clock at the end of a step, the first poke that saw the death of each bucket, and when its
last probe and the last catalog run began. -/
structure Ledger where
  clock : ℚ
  seen : Text → Option ℚ
  lastStart : Text → Option ℚ
  lastCatalog : Option ℚ

/-- A poke that is not turned away, with its time. -/
def pokedAt (cfg : Config) (c : Cadence) : Event → Option ℚ
  | .poke now _ _ => if cfg.enabled = true ∧ c.inFlight matches .none then some now else none
  | _ => none

/-- The catalog run that a step starts. -/
def catalogAt (cfg : Config) (c : Cadence) (e : Event) : Option ℚ :=
  match (step cfg c e).inFlight with
  | .catalog _ => pokedAt cfg c e
  | _ => none

/-- The bucket whose death is reported by a host, or by a verdict that comes when the step ends. -/
def recordedAt (ends : ℚ) : Event → Option (Text × ℚ)
  | .markExhausted key _ _ now => some (key, now)
  | .probeDone key (some (.exhausted _ _)) => some (key, ends)
  | _ => none

/-- A death is recorded of a bucket that is not dead. -/
def DiesAnew (c : Cadence) (e : Event) (ends : ℚ) (k : Text) : Prop :=
  ∃ t, recordedAt ends e = some (k, t) ∧ ¬ Dead c.cooldowns t k

/-- The ledger after a step that ends at `ends`. -/
noncomputable def Ledger.after (cfg : Config) (l : Ledger) (c : Cadence) (e : Event) (ends : ℚ) :
    Ledger where
  clock := ends
  seen k := open Classical in
    if DiesAnew c e ends k then none
    else match pokedAt cfg c e with
    | some now => if Dead c.cooldowns now k then some ((l.seen k).getD now) else l.seen k
    | none => l.seen k
  lastStart k := ((step cfg c e).running.get? k).or (l.lastStart k)
  lastCatalog := (catalogAt cfg c e).or l.lastCatalog

/-- The readings of the clock do not go back. -/
def InOrder (clock : ℚ) (e : Event) (ends : ℚ) : Prop :=
  clock ≤ ends ∧ match e with
  | .markExhausted _ _ read now => clock ≤ read ∧ read ≤ now ∧ now ≤ ends
  | .poke now _ reads => clock ≤ now ∧ ∀ k, now ≤ reads k ∧ reads k ≤ ends
  | .catalogDone reads => ∀ k, clock ≤ reads k ∧ reads k ≤ ends
  | _ => True

/-- The commands that run. -/
def commands (c : Cadence) : Nat :=
  match c.inFlight with
  | .none => 0
  | .catalog _ => 1
  | .quota running => running.entries.length

/-- **What a step may spend.** -/
structure Within (cfg : Config) (l : Ledger) (c : Cadence) (e : Event) (ends : ℚ) : Prop where
  one : commands (step cfg c e) ≤ 1
  probes : ∀ k start, c.running.get? k = none → (step cfg c e).running.get? k = some start →
    Dead c.cooldowns start k
      ∧ (∃ q, (l.after cfg c e ends).seen k = some q ∧ q + cfg.quotaIntervalMs ≤ start)
      ∧ ∀ s, l.lastStart k = some s → s + cfg.quotaIntervalMs ≤ start
  catalogs : ∀ now, catalogAt cfg c e = some now →
    ∀ s, l.lastCatalog = some s → s + cfg.catalogIntervalMs ≤ now

/-- The buckets whose probes a step starts, with the readings of the clock. -/
def starting (cfg : Config) (c : Cadence) : Event → List Text × (Text → ℚ)
  | .poke now manifest reads =>
    if (pokedAt cfg c (.poke now manifest reads)).isSome && !catalogDue cfg c manifest now then
      (probed cfg (quotaDue cfg c now).1, reads)
    else ([], reads)
  | .catalogDone reads =>
    match c.inFlight with
    | .catalog due => (probed cfg due, reads)
    | _ => ([], reads)
  | _ => ([], fun _ => 0)

/-- One bucket at a time is due, it is still dead when its probe starts, and no bucket that has a
stamp dies anew. -/
structure InTurn (cfg : Config) (c : Cadence) (e : Event) (ends : ℚ) : Prop where
  single : (starting cfg c e).1.length ≤ 1
  dead : ∀ k ∈ (starting cfg c e).1, Dead c.cooldowns ((starting cfg c e).2 k) k
  stamped : ∀ k, DiesAnew c e ends k → c.quotaAttemptAt.get? k = none

/-- What the stamps say of the ledger. -/
structure Spent (cfg : Config) (l : Ledger) (c : Cadence) : Prop where
  stamps : ∀ k s, c.quotaAttemptAt.get? k = some s →
    (Dead c.cooldowns l.clock k → ∃ q, l.seen k = some q ∧ q ≤ s)
      ∧ ∀ t, l.lastStart k = some t → t ≤ s
  starts : ∀ k t, l.lastStart k = some t → t ≤ l.clock
  seen : ∀ k q, l.seen k = some q → q ≤ l.clock
  due : ∀ due, c.inFlight = .catalog due →
    ∀ k ∈ due, ∃ s, c.quotaAttemptAt.get? k = some s ∧ s + cfg.quotaIntervalMs ≤ l.clock
  catalog : ∀ t, l.lastCatalog = some t → c.lastCatalogRunAt = t
  one : commands c ≤ 1
  runs : ∀ k t, c.running.get? k = some t → l.lastStart k = some t

section Step

variable {cfg : Config} {l : Ledger} {c : Cadence}

variable {ends : ℚ}

variable (h : Spent cfg l c)

include h

variable {e : Event}

/-- A step that starts nothing. -/
theorem Spent.quiet (hends : l.clock ≤ ends)
    (hturn : InTurn cfg c e ends) (hpoked : pokedAt cfg c e = none)
    (hstamps : ∀ k s, (step cfg c e).quotaAttemptAt.get? k = some s →
      c.quotaAttemptAt.get? k = some s)
    (hdead : ∀ k, Dead (step cfg c e).cooldowns ends k → DiesAnew c e ends k
      ∨ Dead c.cooldowns l.clock k)
    (hdue : ∀ due, (step cfg c e).inFlight = .catalog due →
      c.inFlight = .catalog due ∧ (step cfg c e).quotaAttemptAt = c.quotaAttemptAt)
    (hone : commands (step cfg c e) ≤ commands c)
    (hruns : ∀ k t, (step cfg c e).running.get? k = some t → c.running.get? k = some t)
    (hlast : (step cfg c e).lastCatalogRunAt = c.lastCatalogRunAt) :
    Within cfg l c e ends ∧ Spent cfg (l.after cfg c e ends) (step cfg c e) := by
  have hcatalog : catalogAt cfg c e = none := by
    rw [catalogAt, hpoked]
    split <;> rfl
  have hseen : ∀ k, ¬ DiesAnew c e ends k → (l.after cfg c e ends).seen k = l.seen k := by
    intro k hk
    simp only [Ledger.after, if_neg hk, hpoked]
  have hstart : (l.after cfg c e ends).lastStart = l.lastStart := by
    funext k
    dsimp only [Ledger.after]
    cases hk : (step cfg c e).running.get? k with
    | none => rfl
    | some t => exact (h.runs k t (hruns k t hk)).symm
  have hcat : (l.after cfg c e ends).lastCatalog = l.lastCatalog := by
    rw [Ledger.after, hcatalog, Option.none_or]
  constructor
  · refine ⟨hone.trans h.one, fun k start hnone hsome => ?_, fun now hnow => ?_⟩
    · rw [hruns k start hsome] at hnone
      cases hnone
    · rw [hcatalog] at hnow
      cases hnow
  · refine ⟨fun k s hs => ?_, fun k t ht => ?_, fun k q hq => ?_, fun due hdue' k hk => ?_,
      fun t ht => ?_, hone.trans h.one, fun k t ht => ?_⟩
    · obtain ⟨hfirst, hlastStart⟩ := h.stamps k s (hstamps k s hs)
      refine ⟨fun hk => ?_, fun t ht => hlastStart t (hstart ▸ ht)⟩
      have hanew : ¬ DiesAnew c e ends k := by
        intro hanew
        have hget := hstamps k s hs
        rw [hturn.stamped k hanew] at hget
        cases hget
      rw [hseen k hanew]
      exact hfirst ((hdead k hk).resolve_left hanew)
    · exact (h.starts k t (hstart ▸ ht)).trans hends
    · by_cases hanew : DiesAnew c e ends k
      · simp only [Ledger.after, if_pos hanew] at hq
        cases hq
      · rw [hseen k hanew] at hq
        exact (h.seen k q hq).trans hends
    · obtain ⟨hflight, heq⟩ := hdue due hdue'
      obtain ⟨s, hs, hle⟩ := h.due due hflight k hk
      exact ⟨s, heq ▸ hs, hle.trans hends⟩
    · exact hlast.trans (h.catalog t (hcat ▸ ht))
    · exact hstart ▸ h.runs k t (hruns k t ht)

/-- A step that starts the probes of a run, with the cadence and the ledger right before. -/
theorem Spent.runQuota {l₀ : Ledger} {c₀ : Cadence} {due : List Text} {reads : Text → ℚ} {ends : ℚ}
    (hstep : step cfg c₀ e = runQuota cfg reads due c) (hafter : l₀.after cfg c₀ e ends = { l with
      clock := ends
      lastStart := fun k => ((runQuota cfg reads due c).running.get? k).or (l.lastStart k) })
    (hlast : l₀.lastStart = l.lastStart) (hcooldowns : c₀.cooldowns = c.cooldowns)
    (hstarting : starting cfg c₀ e = (probed cfg due, reads)) (hturn : InTurn cfg c₀ e ends)
    (hdue : ∀ k ∈ due, ∃ s, c.quotaAttemptAt.get? k = some s ∧ s + cfg.quotaIntervalMs ≤ l.clock)
    (hreads : ∀ k, l.clock ≤ reads k ∧ reads k ≤ ends) :
    Within cfg l₀ c₀ e ends ∧ Spent cfg (l₀.after cfg c₀ e ends) (step cfg c₀ e) := by
  have hsingle := hturn.single
  have hdead := hturn.dead
  rw [hstarting] at hsingle hdead
  rw [hcooldowns] at hdead
  have hcatalog : catalogAt cfg c₀ e = none := by rw [catalogAt, hstep]; rfl
  have hclock : l.clock ≤ ends := (hreads []).1.trans (hreads []).2
  have hrunning : ∀ k, (LaneCadence.runQuota cfg reads due c).running.get? k
      = if k ∈ probed cfg due then some (reads k) else none := by
    intro k
    exact get?_stampAll reads .empty _ k
  have hstamp : ∀ k, (LaneCadence.runQuota cfg reads due c).quotaAttemptAt.get? k
      = if k ∈ probed cfg due then some (reads k) else c.quotaAttemptAt.get? k :=
    get?_stampAll reads _ _
  have hprobe : ∀ k ∈ probed cfg due, Dead c.cooldowns (reads k) k
      ∧ (∃ q, l.seen k = some q ∧ q + cfg.quotaIntervalMs ≤ reads k)
      ∧ ∀ s, l.lastStart k = some s → s + cfg.quotaIntervalMs ≤ reads k := by
    intro k hk
    obtain ⟨s, hs, hle⟩ := hdue k (List.mem_of_mem_filter hk)
    obtain ⟨hfirst, hlast⟩ := h.stamps k s hs
    obtain ⟨q, hq, hqs⟩ := hfirst ((hdead k hk).mono (hreads k).1)
    have hread := (hreads k).1
    exact ⟨hdead k hk, ⟨q, hq, by linarith⟩, fun t ht => by linarith [hlast t ht]⟩
  have hspent : Spent cfg (l₀.after cfg c₀ e ends) (step cfg c₀ e) := by
    rw [hafter, hstep]
    refine ⟨fun k s hs => ?_, fun k t ht => ?_, fun k q hq => (h.seen k q hq).trans hclock,
      fun due' hflight => (by cases hflight), h.catalog, ?_, fun k t ht => ?_⟩
    · rw [hstamp] at hs
      dsimp only
      rw [hrunning]
      split at hs
      · next hk =>
        cases hs
        obtain ⟨_, ⟨q, hq, _⟩, _⟩ := hprobe k hk
        refine ⟨fun _ => ⟨q, hq, (h.seen k q hq).trans (hreads k).1⟩, fun t ht => ?_⟩
        rw [if_pos hk, Option.some_or, Option.some.injEq] at ht
        exact ht.ge
      · next hk =>
        obtain ⟨hfirst, hlast⟩ := h.stamps k s hs
        rw [if_neg hk]
        exact ⟨fun hdead => hfirst (Dead.mono hdead hclock), hlast⟩
    · dsimp only at ht
      rw [hrunning] at ht
      split at ht
      · cases ht
        exact (hreads k).2
      · exact (h.starts k t ht).trans hclock
    · rw [commands, LaneCadence.runQuota]
      rcases hp : probed cfg due with _ | ⟨key, _ | ⟨key', keys⟩⟩
      · exact Nat.zero_le _
      · exact le_rfl
      · rw [hp] at hsingle
        exact absurd hsingle (by simp)
    · dsimp only
      rw [ht, Option.some_or]
  refine ⟨⟨hspent.one, fun k start _ hk => ?_, fun now hnow => ?_⟩, hspent⟩
  · rw [hstep, hrunning] at hk
    split at hk
    · next hmem =>
      cases hk
      rw [hafter, hlast, hcooldowns]
      exact hprobe k hmem
    · cases hk
  · rw [hcatalog] at hnow
    cases hnow

/-- A step that changes nothing. -/
theorem Spent.still (hends : l.clock ≤ ends)
    (hturn : InTurn cfg c e ends) (hpoked : pokedAt cfg c e = none) (hstep : step cfg c e = c) :
    Within cfg l c e ends ∧ Spent cfg (l.after cfg c e ends) (step cfg c e) := by
  apply h.quiet hends hturn hpoked <;> rw [hstep]
  · exact fun _ _ hs => hs
  · exact fun k hk => .inr (hk.mono hends)
  · exact fun _ hdue => ⟨hdue, rfl⟩
  · exact fun _ _ ht => ht

/-- A poke stamps the buckets that it sees dead. -/
theorem Spent.seeDead (hidle : c.inFlight = .none) {now : ℚ}
    (hnow : l.clock ≤ now) (hends : now ≤ ends) :
    Spent cfg { l with
        clock := ends
        seen := fun k => if Dead c.cooldowns now k then some ((l.seen k).getD now) else l.seen k }
      { c with quotaAttemptAt := (quotaDue cfg c now).2 } := by
  have hall := hnow.trans hends
  refine ⟨fun k s hs => ?_, fun k t ht => (h.starts k t ht).trans hall, fun k q hq => ?_,
    fun due hdue => ?_, h.catalog, h.one, h.runs⟩
  · dsimp only at hs
    rw [get?_quotaDue] at hs
    split at hs
    · next hdead =>
      cases hs
      dsimp only
      rw [if_pos hdead]
      cases hstamp : c.quotaAttemptAt.get? k with
      | none =>
        refine ⟨fun _ => ⟨_, rfl, ?_⟩, fun t ht => (h.starts k t ht).trans hnow⟩
        cases hq : l.seen k with
        | none => exact le_rfl
        | some q => exact (h.seen k q hq).trans hnow
      | some s =>
        obtain ⟨hfirst, hlast⟩ := h.stamps k s hstamp
        obtain ⟨q, hq, hqs⟩ := hfirst (hdead.mono hnow)
        exact ⟨fun _ => ⟨q, by rw [hq, Option.getD_some], hqs⟩, hlast⟩
    · cases hs
  · dsimp only at hq
    split at hq
    · cases hseen : l.seen k with
      | none =>
        rw [hseen, Option.some.injEq] at hq
        exact hq ▸ hends
      | some q' =>
        rw [hseen, Option.some.injEq] at hq
        exact hq ▸ (h.seen k q' hseen).trans hall
    · exact (h.seen k q hq).trans hall
  · rw [show c.inFlight = .catalog due from hdue] at hidle
    cases hidle

/-- A poke that is not turned away starts a catalog run, the probes that are due, or nothing. -/
theorem Spent.poke (hidle : c.inFlight = .none) (henabled : cfg.enabled = true)
    {now : ℚ} {manifest : Manifest} {reads : Text → ℚ}
    (horder : InOrder l.clock (.poke now manifest reads) ends)
    (hturn : InTurn cfg c (.poke now manifest reads) ends) :
    Within cfg l c (.poke now manifest reads) ends
      ∧ Spent cfg (l.after cfg c (.poke now manifest reads) ends)
        (step cfg c (.poke now manifest reads)) := by
  obtain ⟨-, hnow, hreads⟩ := horder
  have hends : now ≤ ends := (hreads []).1.trans (hreads []).2
  have hpoked : pokedAt cfg c (.poke now manifest reads) = some now := by
    rw [pokedAt, if_pos ⟨henabled, by rw [hidle]⟩]
  have hafter : l.after cfg c (.poke now manifest reads) ends
      = { clock := ends
          seen := fun k => if Dead c.cooldowns now k then some ((l.seen k).getD now) else l.seen k
          lastStart := fun k =>
            ((step cfg c (.poke now manifest reads)).running.get? k).or (l.lastStart k)
          lastCatalog := (catalogAt cfg c (.poke now manifest reads)).or l.lastCatalog } := by
    rw [Ledger.after, hpoked]
    congr 1
    funext k
    refine if_neg ?_
    rintro ⟨_, h, _⟩
    cases h
  have hstep : step cfg c (.poke now manifest reads)
      = if catalogDue cfg c manifest now then
          { c with
            quotaAttemptAt := (quotaDue cfg c now).2
            lastCatalogRunAt := now
            inFlight := .catalog (quotaDue cfg c now).1 }
        else if (quotaDue cfg c now).1 = [] then { c with quotaAttemptAt := (quotaDue cfg c now).2 }
        else LaneCadence.runQuota cfg reads (quotaDue cfg c now).1
          { c with quotaAttemptAt := (quotaDue cfg c now).2 } := by
    rw [step, LaneCadence.poke, if_neg (by rw [henabled]; decide), hidle]
  cases hcatalog : catalogDue cfg c manifest now with
  | true =>
    rw [if_pos hcatalog] at hstep
    have hat : catalogAt cfg c (.poke now manifest reads) = some now := by
      rw [catalogAt, hstep, hpoked]
    have hspent : Spent cfg (l.after cfg c (.poke now manifest reads) ends)
        (step cfg c (.poke now manifest reads)) := by
      rw [hafter, hat, hstep]
      have hsee := h.seeDead hidle hnow hends
      refine ⟨hsee.stamps, hsee.starts, hsee.seen, fun due hdue k hk => ?_,
        fun t ht => Option.some.inj ht, le_rfl, fun k t ht => (by cases ht)⟩
      obtain ⟨-, s, hs, hle⟩ := quotaDue_old ((InFlight.catalog.inj hdue).symm ▸ hk)
      exact ⟨s, hs, hle.trans hends⟩
    refine ⟨⟨hspent.one, fun k start _ hk => ?_, fun now' hnow' s hs => ?_⟩, hspent⟩
    · rw [hstep] at hk
      cases hk
    · rw [hat, Option.some.injEq] at hnow'
      rw [catalogDue, h.catalog s hs] at hcatalog
      split at hcatalog
      · cases hcatalog
      · linarith
  | false =>
    rw [if_neg (by rw [hcatalog]; decide)] at hstep
    have hat : catalogAt cfg c (.poke now manifest reads) = none := by
      rw [catalogAt, hstep]
      split_ifs
      · simp only [hidle]
      · rfl
    have hstarting : starting cfg c (.poke now manifest reads)
        = (probed cfg (quotaDue cfg c now).1, reads) := by
      rw [starting, hpoked, hcatalog]
      rfl
    by_cases hdue : (quotaDue cfg c now).1 = []
    · rw [if_pos hdue] at hstep
      have hrunning : (step cfg c (.poke now manifest reads)).running = .empty := by
        rw [hstep, Cadence.running]
        simp only [hidle]
      have hspent : Spent cfg (l.after cfg c (.poke now manifest reads) ends)
          (step cfg c (.poke now manifest reads)) := by
        rw [hafter, hat, hrunning, hstep]
        exact h.seeDead hidle hnow hends
      refine ⟨⟨hspent.one, fun k start _ hk => ?_, fun now' hnow' => ?_⟩, hspent⟩
      · rw [hrunning] at hk
        cases hk
      · rw [hat] at hnow'
        cases hnow'
    · rw [if_neg hdue] at hstep
      refine (h.seeDead hidle hnow le_rfl).runQuota hstep ?_ rfl rfl hstarting hturn
        (fun k hk => (quotaDue_old hk).2) hreads
      rw [hafter, hat, hstep, Option.none_or]

/-- **One step spends no more than it may.** -/
theorem Spent.step {ends : ℚ} (horder : InOrder l.clock e ends) (hturn : InTurn cfg c e ends) :
    Within cfg l c e ends ∧ Spent cfg (l.after cfg c e ends) (step cfg c e) := by
  have hends := horder.1
  cases e with
  | markExhausted key ttlMs read now =>
    refine h.quiet hends hturn rfl (fun _ _ hs => hs) (fun k hk => ?_) (fun _ hdue => ⟨hdue, rfl⟩)
      le_rfl (fun _ _ ht => ht) rfl
    by_cases hdead : Dead c.cooldowns now k
    · exact .inr (hdead.mono (horder.2.1.trans horder.2.2.1))
    · -- a bucket that was not dead dies by this report, or not at all
      by_cases heq : key = k
      · exact .inl ⟨now, by rw [recordedAt, heq], hdead⟩
      · exact .inr ((Dead.of_mark heq hk).mono hends)
  | clearExhausted cleared =>
    cases cleared with
    | none =>
      refine h.quiet hends hturn rfl (fun _ _ hs => hs) (fun k hk => ?_) (fun _ hdue => ⟨hdue, rfl⟩)
        le_rfl (fun _ _ ht => ht) rfl
      obtain ⟨_, hget, _⟩ := hk
      cases hget
    | some key =>
      refine h.quiet hends hturn rfl (fun _ _ hs => hs) (fun k hk => .inr ?_)
        (fun _ hdue => ⟨hdue, rfl⟩) le_rfl (fun _ _ ht => ht) rfl
      exact (Dead.of_delete hk).mono hends
  | poke now manifest reads =>
    by_cases htaken : cfg.enabled = true ∧ c.inFlight = .none
    · exact h.poke htaken.2 htaken.1 horder hturn
    · refine h.still hends hturn (if_neg fun hand => htaken ⟨hand.1, ?_⟩) ?_
      · cases hflight : c.inFlight with
        | none => rfl
        | _ => rw [hflight] at hand; cases hand.2
      · rw [LaneCadence.step, LaneCadence.poke]
        split
        · rfl
        · next henabled =>
          split
          · next hidle => exact (htaken ⟨eq_true_of_ne_false henabled, hidle⟩).elim
          · rfl
  | catalogDone reads =>
    cases hflight : c.inFlight with
    | catalog due =>
      have hstep : LaneCadence.step cfg c (.catalogDone reads)
          = LaneCadence.runQuota cfg reads due c := by
        rw [LaneCadence.step, hflight]
      refine h.runQuota hstep ?_ rfl rfl (by rw [starting, hflight]) hturn (h.due due hflight) horder.2
      rw [Ledger.after, show catalogAt cfg c (.catalogDone reads) = none by rw [catalogAt, hstep]; rfl,
        hstep]
      congr 1
      funext k
      refine if_neg ?_
      rintro ⟨_, h, _⟩
      cases h
    | _ => exact h.still hends hturn rfl (by rw [LaneCadence.step, hflight])
  | probeDone key verdict =>
    cases hrun : c.running.get? key with
    | none => exact h.still hends hturn rfl (by simp only [LaneCadence.step, hrun])
    | some startedAt =>
      obtain ⟨hflight, hlast, hstamps⟩ := step_probeDone hrun verdict
      have hrunning : (LaneCadence.step cfg c (.probeDone key verdict)).running
          = c.running.delete key := by rw [Cadence.running, hflight]
      refine h.quiet hends hturn rfl hstamps (fun k hk => ?_) (fun _ hdue => ?_) ?_
        (fun k t ht => ?_) hlast
      · rw [cooldowns_probeDone hrun] at hk
        rcases verdict with _ | _ | ⟨outcome, retryAfterMs⟩ | _
        · exact .inr (hk.mono hends)
        · exact .inr ((Dead.of_delete hk).mono hends)
        · by_cases hdead : Dead c.cooldowns ends k
          · exact .inr (hdead.mono hends)
          by_cases heq : key = k
          · exact .inl ⟨ends, by rw [recordedAt, heq], hdead⟩
          · exact (hdead (Dead.of_mark heq hk)).elim
        · exact .inr (hk.mono hends)
      · rw [hflight] at hdue
        cases hdue
      · rw [commands, hflight, commands]
        have hquota : c.inFlight = .quota c.running := by
          rw [Cadence.running] at hrun ⊢
          cases hflight' : c.inFlight with
          | quota running => rfl
          | _ => rw [hflight'] at hrun; cases hrun
        rw [hquota]
        exact List.length_filter_le _ _
      · rw [hrunning, OrderedMap.get?_delete] at ht
        split at ht
        · cases ht
        · exact ht
  | settled =>
    cases hflight : c.inFlight with
    | quota running =>
      by_cases hempty : c.running.entries = []
      · have hstep : LaneCadence.step cfg c .settled = { c with inFlight := .none } := by
          rw [LaneCadence.step, if_pos hempty, hflight]
        refine h.quiet hends hturn rfl ?_ (fun k hk => .inr ?_) ?_ ?_ ?_ ?_ <;> rw [hstep] at *
        · exact fun _ _ hs => hs
        · exact hk.mono hends
        · exact fun _ hdue => (by cases hdue)
        · exact Nat.zero_le _
        · exact fun _ _ ht => (by cases ht)
      · exact h.still hends hturn rfl (by rw [LaneCadence.step, if_neg hempty])
    | _ =>
      refine h.still hends hturn rfl ?_
      rw [LaneCadence.step, hflight]
      exact ite_self _

end Step

/-! ## Runs -/

/-- The ledger before the first step. -/
def Ledger.new (clock : ℚ) : Ledger :=
  { clock, seen := fun _ => none, lastStart := fun _ => none, lastCatalog := none }

/-- Something is so of every step of a run, whose steps come with the times they end at. -/
def Every (cfg : Config) (P : Ledger → Cadence → Event → ℚ → Prop) :
    Ledger → Cadence → List (Event × ℚ) → Prop
  | _, _, [] => True
  | l, c, (e, ends) :: es => P l c e ends ∧ Every cfg P (l.after cfg c e ends) (step cfg c e) es

theorem spent_new (clock : ℚ) (cooldowns : Cooldowns) :
    Spent cfg (.new clock) (.new cooldowns) where
  stamps _ _ hs := by cases hs
  starts _ _ ht := by cases ht
  seen _ _ hq := by cases hq
  due _ hdue := by cases hdue
  catalog _ ht := by cases ht
  one := Nat.zero_le _
  runs _ _ ht := by cases ht

theorem Spent.run {cfg : Config} {l : Ledger} (h : Spent cfg l c)
    {es : List (Event × ℚ)} (horder : Every cfg (fun l _ e ends => InOrder l.clock e ends) l c es)
    (hturn : Every cfg (fun _ c e ends => InTurn cfg c e ends) l c es) :
    Every cfg (Within cfg) l c es := by
  induction es generalizing l c with
  | nil => trivial
  | cons e es ih =>
    obtain ⟨hwithin, hspent⟩ := h.step horder.1 hturn.1
    exact ⟨hwithin, ih hspent horder.2 hturn.2⟩

/-- **No run spends more than it may**, if its clock does not go back and its steps come in turn. -/
theorem spending_bounded (cfg : Config) (clock : ℚ) (cooldowns : Cooldowns) (es : List (Event × ℚ))
    (horder : Every cfg (fun l _ e ends => InOrder l.clock e ends) (.new clock) (.new cooldowns) es)
    (hturn : Every cfg (fun _ c e ends => InTurn cfg c e ends) (.new clock) (.new cooldowns) es) :
    Every cfg (Within cfg) (.new clock) (.new cooldowns) es :=
  (spent_new cfg clock cooldowns).run horder hturn

/-- A bucket dies, is stamped and is probed a minute later. -/
def probedOnce : List (Event × ℚ) :=
  [(.markExhausted (text "quota:a") (some 900000) 0 0, 0), (.poke 0 (fun _ => none) fun _ => 0, 0),
    (.poke 60000 (fun _ => none) fun _ => 60000, 60000)]

theorem not_diesAnew_poke (c : Cadence) (now : ℚ) (manifest : Manifest) (reads : Text → ℚ) (ends : ℚ)
    (k : Text) : ¬ DiesAnew c (.poke now manifest reads) ends k := by
  rintro ⟨_, h, _⟩
  cases h

theorem spending_bounded_probedOnce :
    Every oneBucket (Within oneBucket) (.new 0) (.new .empty) probedOnce := by
  refine spending_bounded oneBucket 0 .empty probedOnce ?_ ?_
  · refine ⟨⟨le_rfl, le_rfl, le_rfl, le_rfl⟩, ⟨le_rfl, le_rfl, fun _ => ⟨le_rfl, le_rfl⟩⟩,
      ⟨?_, ?_, fun _ => ⟨le_rfl, le_rfl⟩⟩, trivial⟩ <;>
    · rw [Ledger.after]
      norm_num
  · refine ⟨⟨Nat.zero_le _, fun _ h => (by cases h), fun _ _ => rfl⟩,
      ⟨by decide +kernel, ?_, fun k h => (not_diesAnew_poke _ _ _ _ _ k h).elim⟩,
      ⟨by decide +kernel, ?_, fun k h => (not_diesAnew_poke _ _ _ _ _ k h).elim⟩, trivial⟩ <;>
    decide +kernel

/-- Two buckets, one of which may be the only one, and a lane for the catalog. -/
def twoBuckets (laneCommands : List Text) : Config :=
  { oneBucket with laneCommands, laneQuotaTargets := [text "quota:a", text "quota:b"] }

/-- **Two buckets that are due at once are probed at once**, and a bucket whose death is retracted
while the catalog run before its probe goes on is probed all the same. -/
theorem due_buckets_probed_at_once :
    ¬ Every (twoBuckets []) (Within (twoBuckets [])) (.new 0) (.new .empty)
        [(.markExhausted (text "quota:a") none 0 0, 0), (.markExhausted (text "quota:b") none 0 0, 0),
          (.poke 0 (fun _ => none) fun _ => 0, 0),
          (.poke 60000 (fun _ => none) fun _ => 60000, 60000)] ∧
      ¬ Every (twoBuckets [text "codex"]) (Within (twoBuckets [text "codex"])) (.new 0) (.new .empty)
        [(.markExhausted (text "quota:a") (some 100000000) 86400000 86400000, 86400000),
          (.poke 86400000 (fun _ => none) fun _ => 86400000, 86400000),
          (.catalogDone fun _ => 86400000, 86400000), (.settled, 86400000),
          (.poke 172800000 (fun _ => none) fun _ => 172800000, 172800000),
          (.clearExhausted none, 172800000),
          (.catalogDone fun _ => 172800000, 172800000)] := by
  constructor
  · intro h
    exact absurd h.2.2.2.1.one (by decide +kernel)
  · intro h
    obtain ⟨hdead, _⟩ := h.2.2.2.2.2.2.1.probes (text "quota:a") 172800000
      (by decide +kernel) (by decide +kernel)
    exact absurd hdead (by decide +kernel)

end LlmRelay.LaneCadence
