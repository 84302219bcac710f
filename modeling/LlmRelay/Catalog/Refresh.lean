import LlmRelay.Candidates.CredentialSelect
import LlmRelay.Transition.Run

/-!
# Catalog refreshes

The roster of a provider is fetched from its endpoint (`catalog.ts`): in the foreground when
there is none or the caller insists, and in the background when the stored one is stale or a
refusal contradicts it. Fetches of either kind are deduplicated, each kind by itself, and each
stores its answer when it ends.

## Main definitions

* `FetchPlan`, `fetchPlan`: whether a fetch asks the endpoint at all;
* `ProviderCatalog`: the entry of a provider with the fetches in flight for it;
* `list`, `noteProviderStale`, `complete`: what happens to it, and `step`: one of them;
* `Orderly`: an event that finds no fetch in its way.

## Main results

* `one_fetch_of_each_kind`: at most one fetch of each kind is in flight;
* `catalog_refresh_ordered_iff`: a signal is answered by whether it asked the endpoint, and no
  answer takes the place of a later fetch's, exactly where every event was orderly.
-/

namespace LlmRelay.Catalog

open Ecma Transition

/-! ## Fetches -/

/-- What a fetch comes to before any answer. -/
inductive FetchPlan where
  | noEgress | unserviceable | upstream
  deriving DecidableEq

/-- The part of a provider that its catalog reads, with what each slot resolves to. -/
structure CatalogProvider where
  kind : ProviderKind
  slots : List (CredentialSlot × CredentialState)
  deriving DecidableEq

/-- The slots a fetch may use. -/
def CatalogProvider.usable (cfg : CatalogProvider) : List (CredentialSlot × CredentialState) :=
  cfg.slots.filter fun slot => slot.1.enabled && slot.1.models.all fun models => models ≠ []

/-- Without a usable slot the answer is an empty roster; with no secret for any there is none. -/
def fetchPlan (cfg : CatalogProvider) : FetchPlan :=
  if cfg.kind ≠ .openai then .noEgress
  else if cfg.usable = [] then .noEgress
  else if cfg.usable.all fun slot => slot.2 = .declaredMissing then .unserviceable
  else .upstream

structure ModelRateLimits where
  rpm : Option Number
  rpd : Option Number
  tpm : Option Number
  tpd : Option Number
  deriving DecidableEq

structure ModelLimits where
  contextLength : Option Number
  maxOutputTokens : Option Number
  pricePromptPerToken : Option Number
  priceCompletionPerToken : Option Number
  rateLimits : Option ModelRateLimits
  deriving DecidableEq

/-- The answer of a fetch. -/
structure Roster where
  models : List String
  limits : List (String × ModelLimits)
  deriving DecidableEq

/-- Can a fetch end in this way? `none` is a failure. -/
def FetchPlan.allows : FetchPlan → Option Roster → Bool
  | .noEgress, outcome => outcome = some ⟨[], []⟩
  | .unserviceable, outcome => outcome.isNone
  | .upstream, _ => true

/-- How a fetch was started. A blocking one knows when its caller read the clock, and what to
serve when it fails. -/
inductive FetchKind where
  | blocking (now : Number) (prior : List String)
  | background
  deriving DecidableEq

/-- A fetch in flight. -/
structure Flight where
  id : Nat
  kind : FetchKind
  plan : FetchPlan
  deriving DecidableEq

/-- Is the fetch one in the background? -/
def Flight.isBackground (flight : Flight) : Bool :=
  flight.kind = .background

structure Entry where
  fetchedAt : Number
  roster : Roster
  deriving DecidableEq

/-- The catalog of one provider. -/
structure ProviderCatalog where
  entry : Option Entry
  refreshing : Bool
  pending : Option Nat
  forcedAt : Option Number
  revision : Nat
  flights : List Flight
  nextFlight : Nat
  deriving DecidableEq

/-- A catalog with what was read from the disk. -/
def loadDisk (entry : Option Entry) : ProviderCatalog :=
  ⟨entry, false, none, none, if entry.isSome then 1 else 0, [], 0⟩

/-! ## Operations -/

/-- What a caller gets. -/
inductive Served where
  | models (models : List String)
  | promise (flight : Nat)
  | signal (started : Bool)
  deriving DecidableEq

/-- What an event does besides changing the catalog. -/
structure Effect where
  started : Option Flight := none
  installed : Option Nat := none
  served : Option Served := none
  deriving DecidableEq

namespace ProviderCatalog

/-- Starts a fetch. -/
def startFlight (s : ProviderCatalog) (kind : FetchKind) (cfg : CatalogProvider) :
    ProviderCatalog × Flight :=
  let flight : Flight := ⟨s.nextFlight, kind, fetchPlan cfg⟩
  ({ s with flights := s.flights ++ [flight], nextFlight := s.nextFlight + 1 }, flight)

def refreshInBackground (s : ProviderCatalog) (cfg : CatalogProvider) :
    ProviderCatalog × Option Flight :=
  if s.refreshing then (s, none)
  else
    let (s', flight) := { s with refreshing := true }.startFlight .background cfg
    (s', some flight)

/-- The part of `list` that blocks: one fetch serves everyone who waits. -/
def listBlocking (s : ProviderCatalog) (cfg : CatalogProvider) (now : Number) :
    ProviderCatalog × Effect :=
  match s.pending with
  | some id => (s, { served := some (.promise id) })
  | none =>
    let prior := (s.entry.map fun entry => entry.roster.models).getD []
    let (s', flight) :=
      { s with pending := some s.nextFlight }.startFlight (.blocking now prior) cfg
    (s', { started := some flight, served := some (.promise flight.id) })

def list (s : ProviderCatalog) (ttlMs : Number) (cfg : CatalogProvider) (force : Bool)
    (now : Number) : ProviderCatalog × Effect :=
  if force then s.listBlocking cfg now
  else
    match s.entry with
    | none => s.listBlocking cfg now
    | some prior =>
      if (now.sub prior.fetchedAt).lt ttlMs then
        (s, { served := some (.models prior.roster.models) })
      else
        let (s', started) := s.refreshInBackground cfg
        (s', { started, served := some (.models prior.roster.models) })

/-- Was there a signal a short while ago? -/
def throttled (s : ProviderCatalog) (now cooldownMs : Number) : Bool :=
  s.forcedAt.any fun last => last.isFinite && (now.sub last).lt cooldownMs

def noteProviderStale (s : ProviderCatalog) (cfg : CatalogProvider) (now cooldownMs : Number) :
    ProviderCatalog × Effect :=
  if s.throttled now cooldownMs then (s, { served := some (.signal false) })
  else
    let (s', started) :=
      { s with forcedAt := if now.isFinite then some now else none }.refreshInBackground cfg
    (s', { started, served := some (.signal true) })

/-- Stores an answer. -/
def install (s : ProviderCatalog) (fetchedAt : Number) (roster : Roster) : ProviderCatalog :=
  { s with entry := some ⟨fetchedAt, roster⟩, revision := s.revision + 1 }

/-- The fetch `flight` ends. `clock` is what the clock says then. -/
def land (s : ProviderCatalog) (flight : Flight) (outcome : Option Roster) (clock : Number) :
    ProviderCatalog × Effect :=
  let s := { s with flights := s.flights.erase flight }
  match flight.kind, outcome with
  | .background, some roster =>
    ({ s.install clock roster with refreshing := false }, { installed := some flight.id })
  | .background, none => ({ s with refreshing := false }, {})
  | .blocking now _, some roster =>
    ({ s.install now roster with pending := none },
      { installed := some flight.id, served := some (.models roster.models) })
  | .blocking _ prior, none => ({ s with pending := none }, { served := some (.models prior) })

/-- The fetch `id` ends, if it is in flight and can end so. -/
def complete (s : ProviderCatalog) (id : Nat) (outcome : Option Roster) (clock : Number) :
    ProviderCatalog × Effect :=
  match s.flights.find? fun flight => flight.id = id && flight.plan.allows outcome with
  | none => (s, {})
  | some flight => s.land flight outcome clock

end ProviderCatalog

/-- An event of the catalog of one provider. -/
inductive CatalogEvent where
  | list (cfg : CatalogProvider) (force : Bool) (now : Number)
  | noteProviderStale (cfg : CatalogProvider) (now cooldownMs : Number)
  | complete (id : Nat) (outcome : Option Roster) (clock : Number)
  deriving DecidableEq

/-- One event, with the time that a roster is fresh for. -/
def step (ttlMs : Number) (s : ProviderCatalog) : CatalogEvent → ProviderCatalog × Effect
  | .list cfg force now => s.list ttlMs cfg force now
  | .noteProviderStale cfg now cooldownMs => s.noteProviderStale cfg now cooldownMs
  | .complete id outcome clock => s.complete id outcome clock

/-- The fetches whose answers were stored, in order. -/
def installs (history : List (CatalogEvent × Effect)) : List Nat :=
  history.filterMap fun e => e.2.installed

/-- No answer took the place of a later fetch's. -/
def Ordered (history : List (CatalogEvent × Effect)) : Prop :=
  (installs history).Pairwise (· < ·)

/-- Does the effect say that a signal was heeded exactly where the endpoint is asked? -/
def Effect.signalsFetch (effect : Effect) : Prop :=
  ∀ answer, effect.served = some (.signal answer) →
    (answer = true ↔ ∃ flight, effect.started = some flight ∧ flight.plan = .upstream)

/-- A signal that is heeded finds no background fetch in flight and a provider that is asked;
an answer finds no earlier fetch in flight that may still be answered. -/
def Orderly (s : ProviderCatalog) : CatalogEvent → Prop
  | .list .. => True
  | .noteProviderStale cfg now cooldownMs =>
    s.throttled now cooldownMs = false → s.refreshing = false ∧ fetchPlan cfg = .upstream
  | .complete id outcome _ =>
    ∀ flight ∈ s.flights, flight.id = id → flight.plan.allows outcome = true →
      outcome.isSome = true →
        ∀ other ∈ s.flights, other.id < id → other.plan = .unserviceable

/-! ## What a step does -/

/-- A fetch starts: a background one where none is in flight, or a blocking one likewise. -/
structure Starts (s s' : ProviderCatalog) (flight : Flight) : Prop where
  id : flight.id = s.nextFlight
  nextFlight : s'.nextFlight = s.nextFlight + 1
  flights : s'.flights = s.flights ++ [flight]
  entry : s'.entry = s.entry
  marked : (flight.isBackground = true ∧ s.refreshing = false ∧ s'.refreshing = true ∧
      s'.pending = s.pending) ∨
    (flight.isBackground = false ∧ s.pending = none ∧ s'.pending = some flight.id ∧
      s'.refreshing = s.refreshing)

/-- A fetch ends. -/
structure Ends (s s' : ProviderCatalog) (flight : Flight) : Prop where
  mem : flight ∈ s.flights
  nextFlight : s'.nextFlight = s.nextFlight
  flights : s'.flights = s.flights.erase flight
  marked : (flight.isBackground = true ∧ s'.refreshing = false ∧ s'.pending = s.pending) ∨
    (flight.isBackground = false ∧ s'.pending = none ∧ s'.refreshing = s.refreshing)

/-- The fetches are left alone. -/
structure Idles (s s' : ProviderCatalog) : Prop where
  nextFlight : s'.nextFlight = s.nextFlight
  flights : s'.flights = s.flights
  entry : s'.entry = s.entry
  refreshing : s'.refreshing = s.refreshing
  pending : s'.pending = s.pending

theorem Idles.refl (s : ProviderCatalog) : Idles s s :=
  ⟨rfl, rfl, rfl, rfl, rfl⟩

/-- What a call does: it starts nothing, or the one fetch that its effect names. -/
def Calls (s s' : ProviderCatalog) : Option Flight → Prop
  | none => Idles s s'
  | some flight => Starts s s' flight

namespace ProviderCatalog

variable (s : ProviderCatalog) (cfg : CatalogProvider)

theorem calls_refreshInBackground :
    Calls s (s.refreshInBackground cfg).1 (s.refreshInBackground cfg).2 := by
  unfold refreshInBackground
  cases hrefreshing : s.refreshing with
  | true => exact .refl s
  | false => exact ⟨rfl, rfl, rfl, rfl, .inl ⟨rfl, hrefreshing, rfl, rfl⟩⟩

theorem calls_listBlocking (now : Number) :
    Calls s (s.listBlocking cfg now).1 (s.listBlocking cfg now).2.started := by
  unfold listBlocking
  cases hpending : s.pending with
  | some id => exact .refl s
  | none => exact ⟨rfl, rfl, rfl, rfl, .inr ⟨rfl, hpending, rfl, rfl⟩⟩

theorem calls_list (ttlMs : Number) (force : Bool) (now : Number) :
    Calls s (s.list ttlMs cfg force now).1 (s.list ttlMs cfg force now).2.started := by
  unfold list
  cases force with
  | true => exact calls_listBlocking s cfg now
  | false =>
    rw [if_neg Bool.false_ne_true]
    cases s.entry with
    | none => exact calls_listBlocking s cfg now
    | some prior =>
      dsimp only
      split
      · exact .refl s
      · exact calls_refreshInBackground s cfg

theorem calls_noteProviderStale (now cooldownMs : Number) :
    Calls s (s.noteProviderStale cfg now cooldownMs).1
      (s.noteProviderStale cfg now cooldownMs).2.started := by
  unfold noteProviderStale
  split
  · exact .refl s
  · -- the stamp of the signal is no part of the fetches
    cases hrefreshing : s.refreshing with
    | true => exact ⟨rfl, rfl, rfl, hrefreshing.symm, rfl⟩
    | false => exact ⟨rfl, rfl, rfl, rfl, .inl ⟨rfl, hrefreshing, rfl, rfl⟩⟩

theorem ends_land {flight : Flight} (hmem : flight ∈ s.flights) (outcome : Option Roster)
    (clock : Number) :
    Ends s (s.land flight outcome clock).1 flight ∧
      (s.land flight outcome clock).2.installed = outcome.map (fun _ => flight.id) ∧
      (s.land flight outcome clock).2.started = none ∧
      (outcome = none → (s.land flight outcome clock).1.entry = s.entry) := by
  rcases flight with ⟨id, kind, plan⟩
  rcases kind with _ | _ <;> rcases outcome with _ | roster
  · exact ⟨⟨hmem, rfl, rfl, .inr ⟨rfl, rfl, rfl⟩⟩, rfl, rfl, fun _ => rfl⟩
  · exact ⟨⟨hmem, rfl, rfl, .inr ⟨rfl, rfl, rfl⟩⟩, rfl, rfl, (nomatch ·)⟩
  · exact ⟨⟨hmem, rfl, rfl, .inl ⟨rfl, rfl, rfl⟩⟩, rfl, rfl, fun _ => rfl⟩
  · exact ⟨⟨hmem, rfl, rfl, .inl ⟨rfl, rfl, rfl⟩⟩, rfl, rfl, (nomatch ·)⟩

end ProviderCatalog

namespace ProviderCatalog

variable (s : ProviderCatalog) (cfg : CatalogProvider)

theorem installed_listBlocking (now : Number) : (s.listBlocking cfg now).2.installed = none := by
  unfold listBlocking
  split <;> rfl

theorem installed_list (ttlMs : Number) (force : Bool) (now : Number) :
    (s.list ttlMs cfg force now).2.installed = none := by
  unfold list
  split
  · exact installed_listBlocking s cfg now
  · split
    · exact installed_listBlocking s cfg now
    · split <;> rfl

theorem installed_noteProviderStale (now cooldownMs : Number) :
    (s.noteProviderStale cfg now cooldownMs).2.installed = none := by
  unfold noteProviderStale
  split <;> rfl

theorem complete_cases (id : Nat) (outcome : Option Roster) (clock : Number) :
    (s.complete id outcome clock = (s, {}) ∧
        ∀ flight ∈ s.flights, flight.id = id → flight.plan.allows outcome = false) ∨
      ∃ flight ∈ s.flights, flight.id = id ∧ flight.plan.allows outcome = true ∧
        s.complete id outcome clock = s.land flight outcome clock := by
  unfold complete
  cases hfind : s.flights.find? fun flight => flight.id = id && flight.plan.allows outcome with
  | none =>
    refine .inl ⟨rfl, fun flight hmem hid => ?_⟩
    have hnot := List.find?_eq_none.mp hfind flight hmem
    rwa [decide_eq_true hid, Bool.not_eq_true] at hnot
  | some flight =>
    have hfound := List.find?_some hfind
    rw [Bool.and_eq_true, decide_eq_true_eq] at hfound
    exact .inr ⟨flight, List.mem_of_find?_eq_some hfind, hfound.1, hfound.2, rfl⟩

end ProviderCatalog

/-- **What an event does**: it calls for a fetch, or one ends, or nothing happens. -/
theorem step_cases (ttlMs : Number) (s : ProviderCatalog) (event : CatalogEvent) :
    (Calls s (step ttlMs s event).1 (step ttlMs s event).2.started ∧
        (step ttlMs s event).2.installed = none) ∨
      ∃ flight outcome clock, event = .complete flight.id outcome clock ∧
        flight.plan.allows outcome = true ∧ Ends s (step ttlMs s event).1 flight ∧
        (step ttlMs s event).2.installed = outcome.map fun _ => flight.id := by
  cases event with
  | list cfg force now =>
    exact .inl ⟨s.calls_list cfg ttlMs force now, s.installed_list cfg ttlMs force now⟩
  | noteProviderStale cfg now cooldownMs =>
    exact .inl ⟨s.calls_noteProviderStale cfg now cooldownMs,
      s.installed_noteProviderStale cfg now cooldownMs⟩
  | complete id outcome clock =>
    rcases s.complete_cases id outcome clock with ⟨hnone, -⟩ | ⟨flight, hmem, rfl, hallows, hland⟩
    · have hstep : step ttlMs s (.complete id outcome clock) = (s, {}) := hnone
      rw [hstep]
      exact .inl ⟨.refl s, rfl⟩
    · have hstep : step ttlMs s (.complete flight.id outcome clock)
          = s.land flight outcome clock := hland
      rw [hstep]
      obtain ⟨hends, hinstalled, -⟩ := s.ends_land hmem outcome clock
      exact .inr ⟨flight, outcome, clock, rfl, hallows, hends, hinstalled⟩

/-! ## One fetch of each kind -/

/-- The marks say which fetches are in flight. -/
structure Sound (s : ProviderCatalog) : Prop where
  ids : ∀ flight ∈ s.flights, flight.id < s.nextFlight
  distinct : (s.flights.map Flight.id).Nodup
  background : s.flights.countP (·.isBackground) = if s.refreshing then 1 else 0
  blocking : s.flights.countP (!·.isBackground) = if s.pending.isSome then 1 else 0

theorem sound_loadDisk (entry : Option Entry) : Sound (loadDisk entry) where
  ids := fun _ h => absurd h List.not_mem_nil
  distinct := List.nodup_nil
  background := rfl
  blocking := rfl

variable {s s' : ProviderCatalog}

theorem Sound.idles (h : Sound s) (hidles : Idles s s') : Sound s' where
  ids := by
    rw [hidles.flights, hidles.nextFlight]
    exact h.ids
  distinct := hidles.flights ▸ h.distinct
  background := by rw [hidles.flights, hidles.refreshing, h.background]
  blocking := by rw [hidles.flights, hidles.pending, h.blocking]

variable {flight : Flight}

theorem Sound.starts (h : Sound s) (hstarts : Starts s s' flight) : Sound s' where
  ids := by
    rw [hstarts.flights, hstarts.nextFlight]
    intro other hother
    rcases List.mem_append.mp hother with hold | hnew
    · exact Nat.lt_succ_of_lt (h.ids other hold)
    · rw [List.mem_singleton.mp hnew, hstarts.id]
      exact Nat.lt_succ_self _
  distinct := by
    rw [hstarts.flights, List.map_append]
    refine List.nodup_append.mpr ⟨h.distinct, List.nodup_singleton _, ?_⟩
    intro id hid other hother heq
    obtain ⟨old, hold, rfl⟩ := List.mem_map.mp hid
    rw [List.mem_singleton.mp hother, hstarts.id] at heq
    exact absurd (h.ids old hold) (heq ▸ Nat.lt_irrefl _)
  background := by
    rw [hstarts.flights, List.countP_append, h.background, List.countP_singleton]
    rcases hstarts.marked with ⟨hkind, hbefore, hafter, -⟩ | ⟨hkind, -, -, hsame⟩
    · rw [hkind, hbefore, hafter]
      rfl
    · rw [hkind, hsame]
      rfl
  blocking := by
    rw [hstarts.flights, List.countP_append, h.blocking, List.countP_singleton]
    rcases hstarts.marked with ⟨hkind, -, -, hsame⟩ | ⟨hkind, hbefore, hafter, -⟩
    · rw [hkind, hsame]
      rfl
    · rw [hkind, hbefore, hafter]
      rfl

theorem Sound.ends (h : Sound s) (hends : Ends s s' flight) : Sound s' where
  ids := by
    rw [hends.flights, hends.nextFlight]
    exact fun other hother => h.ids other (List.mem_of_mem_erase hother)
  distinct := by
    rw [hends.flights]
    exact h.distinct.sublist (List.erase_sublist.map Flight.id)
  background := by
    have hcount := (List.perm_cons_erase hends.mem).countP_eq (·.isBackground)
    rw [h.background, List.countP_cons, ← hends.flights] at hcount
    rcases hends.marked with ⟨hkind, hafter, -⟩ | ⟨hkind, -, hsame⟩
    · rw [hkind] at hcount
      split at hcount <;> simp_all
    · rw [hkind] at hcount
      rw [hsame]
      exact hcount.symm
  blocking := by
    have hcount := (List.perm_cons_erase hends.mem).countP_eq (!·.isBackground)
    rw [h.blocking, List.countP_cons, ← hends.flights] at hcount
    rcases hends.marked with ⟨hkind, -, hsame⟩ | ⟨hkind, hafter, -⟩
    · rw [hkind, Bool.not_true] at hcount
      rw [hsame]
      exact hcount.symm
    · rw [hkind, Bool.not_false] at hcount
      split at hcount <;> simp_all

theorem Sound.step {s : ProviderCatalog} (h : Sound s) (ttlMs : Number) (event : CatalogEvent) :
    Sound (step ttlMs s event).1 := by
  rcases step_cases ttlMs s event with ⟨hcalls, -⟩ | ⟨flight, outcome, clock, -, -, hends, -⟩
  · cases hstarted : (Catalog.step ttlMs s event).2.started with
    | none =>
      rw [hstarted] at hcalls
      exact h.idles hcalls
    | some flight =>
      rw [hstarted] at hcalls
      exact h.starts hcalls
  · exact h.ends hends

section Runs

variable (ttlMs : Number) (entry : Option Entry)

theorem sound_finalState (events : List CatalogEvent) :
    Sound (finalState (step ttlMs) (loadDisk entry) events) :=
  finalState_invariant (step ttlMs) (sound_loadDisk entry)
    (fun _ event h => h.step ttlMs event) events

/-- At most one background and one blocking fetch are in flight. -/
theorem one_fetch_of_each_kind (events : List CatalogEvent) :
    (finalState (step ttlMs) (loadDisk entry) events).flights.countP (·.isBackground) ≤ 1 ∧
      (finalState (step ttlMs) (loadDisk entry) events).flights.countP (!·.isBackground) ≤ 1 := by
  have h := sound_finalState ttlMs entry events
  rw [h.background, h.blocking]
  constructor <;> split <;> decide

end Runs

/-! ## Signals -/

theorem signalsFetch_noteProviderStale_iff (s : ProviderCatalog) (cfg : CatalogProvider)
    (now cooldownMs : Number) :
    (s.noteProviderStale cfg now cooldownMs).2.signalsFetch ↔
      Orderly s (.noteProviderStale cfg now cooldownMs) := by
  unfold ProviderCatalog.noteProviderStale Orderly Effect.signalsFetch
  cases hthrottled : s.throttled now cooldownMs with
  | true => simp [hthrottled]
  | false =>
    unfold ProviderCatalog.refreshInBackground ProviderCatalog.startFlight
    cases s.refreshing <;> simp [hthrottled]

theorem signalsFetch_of_orderly (ttlMs : Number) {s : ProviderCatalog} {event : CatalogEvent}
    (h : Orderly s event) : (step ttlMs s event).2.signalsFetch := by
  cases event with
  | list cfg force now =>
    intro answer hserved
    change (s.list ttlMs cfg force now).2.served = _ at hserved
    exfalso
    unfold ProviderCatalog.list ProviderCatalog.listBlocking at hserved
    repeat' split at hserved
    all_goals cases hserved
  | noteProviderStale cfg now cooldownMs =>
    exact (signalsFetch_noteProviderStale_iff s cfg now cooldownMs).mpr h
  | complete id outcome clock =>
    intro answer hserved
    change (s.complete id outcome clock).2.served = _ at hserved
    exfalso
    rcases s.complete_cases id outcome clock with ⟨hnone, -⟩ | ⟨flight, -, -, -, hland⟩
    · rw [hnone] at hserved
      cases hserved
    · rw [hland] at hserved
      rcases flight with ⟨_, _ | _, _⟩ <;> rcases outcome with _ | _ <;> cases hserved

/-! ## The order of the answers -/

theorem installs_snoc (history : List (CatalogEvent × Effect)) (e : CatalogEvent × Effect) :
    installs (history ++ [e]) = installs history ++ e.2.installed.toList := by
  unfold installs
  rw [List.filterMap_append, List.filterMap_cons]
  cases e.2.installed <;> rfl

/-- The fetches that can still be answered started after the ones that were answered. -/
structure InOrder (s : ProviderCatalog) (answered : List Nat) : Prop where
  ordered : answered.Pairwise (· < ·)
  old : ∀ id ∈ answered, id < s.nextFlight
  ahead : ∀ id ∈ answered, ∀ flight ∈ s.flights, flight.plan ≠ .unserviceable → id < flight.id

theorem plan_ne_of_allows {plan : FetchPlan} {roster : Roster}
    (h : plan.allows (some roster) = true) : plan ≠ .unserviceable := by
  rintro rfl
  cases h

theorem allows_empty {plan : FetchPlan} (h : plan ≠ .unserviceable) :
    plan.allows (some ⟨[], []⟩) = true := by
  cases plan with
  | noEgress => rfl
  | unserviceable => exact absurd rfl h
  | upstream => rfl

section Order

variable {s s' : ProviderCatalog} {answered : List Nat} {flight : Flight}

variable (h : InOrder s answered)

include h

theorem InOrder.idles (hidles : Idles s s') : InOrder s' answered where
  ordered := h.ordered
  old := hidles.nextFlight ▸ h.old
  ahead := hidles.flights ▸ h.ahead

theorem InOrder.starts (hstarts : Starts s s' flight) :
    InOrder s' answered where
  ordered := h.ordered
  old := by
    rw [hstarts.nextFlight]
    exact fun id hid => Nat.lt_succ_of_lt (h.old id hid)
  ahead := by
    rw [hstarts.flights]
    intro id hid other hother hplan
    rcases List.mem_append.mp hother with hold | hnew
    · exact h.ahead id hid other hold hplan
    · rw [List.mem_singleton.mp hnew, hstarts.id]
      exact h.old id hid

/-- A fetch that fails answers nothing. -/
theorem InOrder.ends (hends : Ends s s' flight) :
    InOrder s' answered where
  ordered := h.ordered
  old := hends.nextFlight ▸ h.old
  ahead := by
    rw [hends.flights]
    exact fun id hid other hother => h.ahead id hid other (List.mem_of_mem_erase hother)

theorem InOrder.pairwise_snoc (hmem : flight ∈ s.flights)
    (hplan : flight.plan ≠ .unserviceable) : (answered ++ [flight.id]).Pairwise (· < ·) := by
  refine List.pairwise_append.mpr ⟨h.ordered, List.pairwise_singleton _ _, ?_⟩
  intro id hid id' hid'
  rw [List.mem_singleton.mp hid']
  exact h.ahead id hid flight hmem hplan

theorem InOrder.lands (hsound : Sound s) (hends : Ends s s' flight)
    (hplan : flight.plan ≠ .unserviceable)
    (hearlier : ∀ other ∈ s.flights, other.id < flight.id → other.plan = .unserviceable) :
    InOrder s' (answered ++ [flight.id]) where
  ordered := h.pairwise_snoc hends.mem hplan
  old := by
    rw [hends.nextFlight]
    intro id hid
    rcases List.mem_append.mp hid with hold | hlast
    · exact h.old id hold
    · rw [List.mem_singleton.mp hlast]
      exact hsound.ids flight hends.mem
  ahead := by
    rw [hends.flights]
    intro id hid other hother hother_plan
    obtain ⟨hne, hmem⟩ := hsound.distinct.of_map.mem_erase_iff.mp hother
    rcases List.mem_append.mp hid with hold | hlast
    · exact h.ahead id hold other hmem hother_plan
    · rw [List.mem_singleton.mp hlast]
      have hnot : ¬ other.id < flight.id := fun hlt => hother_plan (hearlier other hmem hlt)
      have hids : other.id ≠ flight.id := fun heq =>
        hne (List.inj_on_of_nodup_map hsound.distinct hmem hends.mem heq)
      omega

end Order

section Steps

variable (ttlMs : Number) {s : ProviderCatalog} {history : List (CatalogEvent × Effect)}

theorem InOrder.ordered_snoc (h : InOrder s (installs history)) (event : CatalogEvent) :
    Ordered (history ++ [(event, (step ttlMs s event).2)]) := by
  unfold Ordered
  rw [installs_snoc]
  rcases step_cases ttlMs s event with ⟨-, hnone⟩ | ⟨flight, outcome, clock, -, hallows, hends, hin⟩
  · rw [hnone, Option.toList_none, List.append_nil]
    exact h.ordered
  · rw [hin]
    cases outcome with
    | none =>
      rw [Option.map_none, Option.toList_none, List.append_nil]
      exact h.ordered
    | some roster => exact h.pairwise_snoc hends.mem (plan_ne_of_allows hallows)

/-- An orderly event leaves no earlier fetch behind that can still be answered. -/
theorem InOrder.step (h : InOrder s (installs history)) (hsound : Sound s) {event : CatalogEvent}
    (horderly : Orderly s event) :
    InOrder (step ttlMs s event).1
      (installs (history ++ [(event, (Catalog.step ttlMs s event).2)])) := by
  rw [installs_snoc]
  rcases step_cases ttlMs s event with
    ⟨hcalls, hnone⟩ | ⟨flight, outcome, clock, rfl, hallows, hends, hin⟩
  · rw [hnone, Option.toList_none, List.append_nil]
    cases hstarted : (Catalog.step ttlMs s event).2.started with
    | none =>
      rw [hstarted] at hcalls
      exact h.idles hcalls
    | some flight =>
      rw [hstarted] at hcalls
      exact h.starts hcalls
  · rw [hin]
    cases outcome with
    | none =>
      rw [Option.map_none, Option.toList_none, List.append_nil]
      exact h.ends hends
    | some roster =>
      exact h.lands hsound hends (plan_ne_of_allows hallows)
        (horderly flight hends.mem rfl hallows rfl)

theorem installed_complete {roster : Roster} (hmem : flight ∈ s.flights)
    (hallows : flight.plan.allows (some roster) = true) (clock : Number) :
    ∃ f ∈ s.flights, f.id = flight.id ∧
      Ends s (step ttlMs s (.complete flight.id (some roster) clock)).1 f ∧
      (step ttlMs s (.complete flight.id (some roster) clock)).2.installed = some flight.id := by
  change ∃ f ∈ s.flights, f.id = flight.id ∧ Ends s (s.complete _ _ _).1 f ∧
    (s.complete _ _ _).2.installed = _
  rcases s.complete_cases flight.id (some roster) clock with ⟨-, hnone⟩ | ⟨f, hf, hid, -, hland⟩
  · rw [hnone flight hmem rfl] at hallows
    cases hallows
  · rw [hland]
    obtain ⟨hends, hinstalled, -⟩ := s.ends_land hf (some roster) clock
    exact ⟨f, hf, hid, hends, hinstalled.trans (congrArg some hid)⟩

theorem exists_not_ordered (history : List (CatalogEvent × Effect)) {id : Nat}
    {outcome : Option Roster} {clock : Number} (hnot : ¬ Orderly s (.complete id outcome clock)) :
    ∃ later, ¬ Ordered (history ++ [(.complete id outcome clock,
      (step ttlMs s (.complete id outcome clock)).2)] ++ [(later,
        (step ttlMs (step ttlMs s (.complete id outcome clock)).1 later).2)]) := by
  simp only [Orderly, not_forall] at hnot
  obtain ⟨flight, hmem, rfl, hallows, hsome, other, hother, hlt, hplan⟩ := hnot
  obtain ⟨roster, rfl⟩ := Option.isSome_iff_exists.mp hsome
  obtain ⟨f, -, hid, hends, hfirst⟩ := installed_complete ttlMs hmem hallows clock
  -- the other fetch is still in flight, and may get an empty roster
  have hstill : other ∈ (step ttlMs s (.complete flight.id (some roster) clock)).1.flights := by
    rw [hends.flights]
    refine (List.mem_erase_of_ne fun heq => ?_).mpr hother
    rw [heq, hid] at hlt
    exact Nat.lt_irrefl _ hlt
  obtain ⟨g, -, -, -, hsecond⟩ := installed_complete ttlMs hstill (allows_empty hplan) clock
  refine ⟨.complete other.id (some ⟨[], []⟩) clock, fun hordered => ?_⟩
  unfold Ordered at hordered
  rw [installs_snoc, installs_snoc, hfirst, hsecond] at hordered
  have hpair := (List.pairwise_append.mp hordered).2.2 flight.id (by simp) other.id (by simp)
  exact absurd hpair (Nat.lt_asymm hlt)

end Steps

section Runs

variable (ttlMs : Number) (entry : Option Entry)

theorem inOrder_finalState (events : List CatalogEvent)
    (h : ∀ pre event, pre ++ [event] <+: events →
      Orderly (finalState (step ttlMs) (loadDisk entry) pre) event) :
    InOrder (finalState (step ttlMs) (loadDisk entry) events)
      (installs (history (step ttlMs) (loadDisk entry) events)) := by
  induction events using List.reverseRecOn with
  | nil =>
    exact ⟨List.Pairwise.nil, fun _ hid => absurd hid List.not_mem_nil,
      fun _ hid => absurd hid List.not_mem_nil⟩
  | append_singleton events event ih =>
    rw [finalState_snoc, history_snoc]
    exact (ih fun pre e hpre => h pre e (hpre.trans (List.prefix_append _ _))).step ttlMs
      (sound_finalState ttlMs entry events) (h events event List.prefix_rfl)

/-- **The order of refreshes**: at most one fetch of each kind is in flight, and a failed one
leaves the entry as it was. Signals are answered by whether they asked the endpoint, and no
answer ever takes the place of a later fetch's whatever comes next, exactly where every event was
orderly. -/
theorem catalog_refresh_ordered_iff (events : List CatalogEvent) :
    ((finalState (step ttlMs) (loadDisk entry) events).flights.countP (·.isBackground) ≤ 1 ∧
      (finalState (step ttlMs) (loadDisk entry) events).flights.countP (!·.isBackground) ≤ 1) ∧
    (∀ pre id clock, pre ++ [.complete id none clock] <+: events →
      (finalState (step ttlMs) (loadDisk entry) (pre ++ [.complete id none clock])).entry
        = (finalState (step ttlMs) (loadDisk entry) pre).entry) ∧
    (((∀ pre event, pre ++ [event] <+: events →
          (step ttlMs (finalState (step ttlMs) (loadDisk entry) pre) event).2.signalsFetch) ∧
        ∀ pre event, pre <+: events →
          Ordered (history (step ttlMs) (loadDisk entry) (pre ++ [event]))) ↔
      ∀ pre event, pre ++ [event] <+: events →
        Orderly (finalState (step ttlMs) (loadDisk entry) pre) event) := by
  refine ⟨one_fetch_of_each_kind ttlMs entry events, fun pre id clock _ => ?_,
    fun ⟨hsignals, hordered⟩ => ?_, fun h => ⟨fun pre event hpre => ?_, fun pre event hpre => ?_⟩⟩
  · rw [finalState_snoc]
    generalize finalState (step ttlMs) (loadDisk entry) pre = s
    change (s.complete id none clock).1.entry = s.entry
    rcases s.complete_cases id none clock with ⟨hnone, -⟩ | ⟨flight, hmem, -, -, hland⟩
    · rw [hnone]
    · rw [hland]
      exact (s.ends_land hmem none clock).2.2.2 rfl
  · refine forall_step_of_earlier fun pre event hpre hearlier => ?_
    by_contra hnot
    cases event with
    | list cfg force now => exact hnot trivial
    | noteProviderStale cfg now cooldownMs =>
      exact hnot ((signalsFetch_noteProviderStale_iff _ cfg now cooldownMs).mp
        (hsignals pre _ hpre))
    | complete id outcome clock =>
      obtain ⟨later, hlater⟩ :=
        exists_not_ordered ttlMs (history (step ttlMs) (loadDisk entry) pre) hnot
      refine hlater ?_
      have hnext := hordered (pre ++ [.complete id outcome clock]) later hpre
      rw [history_snoc, history_snoc, finalState_snoc] at hnext
      exact hnext
  · exact signalsFetch_of_orderly ttlMs (h pre event hpre)
  · have hin := inOrder_finalState ttlMs entry pre fun before e hbefore =>
      h before e (hbefore.trans hpre)
    rw [history_snoc]
    exact hin.ordered_snoc ttlMs event

end Runs

/-- A provider that is asked, with no secret of its own. -/
def keyless : CatalogProvider :=
  ⟨.openai, [(⟨true, none, 0⟩, .notDeclared)]⟩

/-- A stale roster is refreshed, and then contradicted. -/
def signalWhileRefreshing : List CatalogEvent :=
  [.list keyless false 5000, .noteProviderStale keyless 5001 600000]

/-- A forced listing is overtaken by the refresh that a signal started. -/
def overtakenListing : List CatalogEvent :=
  [.list keyless true 5000, .noteProviderStale keyless 5001 600000,
    .complete 1 (some ⟨["new"], []⟩) 5002, .complete 0 (some ⟨["gone"], []⟩) 5003]

/-- The signal is answered as if it had asked the endpoint, and the earlier answer replaces the
later one. -/
theorem catalog_refresh_disordered :
    ((step 1000 (finalState (step 1000) (loadDisk (some ⟨0, ⟨["old"], []⟩⟩))
          (signalWhileRefreshing.take 1)) (.noteProviderStale keyless 5001 600000)).2
        = { served := some (.signal true) } ∧
      installs (history (step 1000) (loadDisk none) overtakenListing) = [1, 0]) ∧
    ¬ (∀ ttlMs entry events,
      (∀ pre event, pre ++ [event] <+: events →
        (step ttlMs (finalState (step ttlMs) (loadDisk entry) pre) event).2.signalsFetch) ∧
      Ordered (history (step ttlMs) (loadDisk entry) events)) := by
  have hsignal : (step 1000 (finalState (step 1000) (loadDisk (some ⟨0, ⟨["old"], []⟩⟩))
      (signalWhileRefreshing.take 1)) (.noteProviderStale keyless 5001 600000)).2
        = { served := some (.signal true) } := by decide +kernel
  have hinstalls : installs (history (step 1000) (loadDisk none) overtakenListing) = [1, 0] := by
    decide +kernel
  refine ⟨⟨hsignal, hinstalls⟩, fun h => ?_⟩
  have hordered := (h 1000 none overtakenListing).2
  rw [Ordered, hinstalls] at hordered
  exact absurd hordered (by decide)

end LlmRelay.Catalog
