import LlmRelay.Ecma.Pruning
import LlmRelay.Ecma.Sorting
import LlmRelay.Sessions.SessionKey

/-!
# Sticky sessions

A session keeps the target it was served by, as long as it is used. When there are too many pins,
the expired ones go, and then the ones that were not used for the longest time.

## Main definitions

* `SessionPin`, `getPin`, `setPin`, `deletePin`, `prune`: the manager;
* `PinCall`, `step`: what requests do with it, each by the key derived from it;
* `latestSet before i`: the target set last for the identity `i`;
* `Isolated events`: what the run over `events` shows to its requests, and what it evicts;
* `Unambiguous R`: no two requests of `R` name different sessions and agents by one text.

## Main results

* `size_prune`, `prune_evicts`, `prune_last`: what pruning leaves;
* `Kept.step`: every pin is the one set last for an identity;
* `sticky_isolation_iff`: runs are isolated exactly over unambiguous requests.
-/

namespace LlmRelay.Sessions

open Ecma Transition

structure SessionPin where
  targetSpec : Text
  pinnedAt : Nat
  lastUsedAt : Nat
  useCount : Nat
  deriving DecidableEq

/-- The pins of a manager, by key. -/
abbrev Pins := OrderedMap Text SessionPin

def DEFAULT_STICKY_TTL_MS : Nat := 30 * 60 * 1000

def DEFAULT_STICKY_MAX_SESSIONS : Nat := 1000

/-! ## The manager -/

section Manager

variable (ttlMs maxSessions : Nat)

/-- The pin was not used for longer than the TTL. -/
def SessionPin.expired (pin : SessionPin) (now : Nat) : Bool :=
  decide (ttlMs < now - pin.lastUsedAt)

def getPin (pins : Pins) (key : Text) (now : Nat) : Pins × Option Text :=
  match pins.get? key with
  | none => (pins, none)
  | some entry =>
    if entry.expired ttlMs now then (pins.delete key, none)
    else
      (pins.set key { entry with lastUsedAt := now, useCount := entry.useCount + 1 },
        some entry.targetSpec)

/-- The order of the last use. -/
def usedNoLater (a b : Text × SessionPin) : Bool :=
  decide (a.2.lastUsedAt ≤ b.2.lastUsedAt)

/-- Deleting entries by their keys. -/
def deleteAll (pins : Pins) (entries : List (Text × SessionPin)) : Pins :=
  entries.foldl (fun pins entry => pins.delete entry.1) pins

def prune (pins : Pins) (now : Nat) : Pins :=
  if pins.entries.length ≤ maxSessions then pins
  else
    let live := pins.removeWhere fun entry => entry.expired ttlMs now
    if live.entries.length ≤ maxSessions then live
    else
      let oldest := live.entries.mergeSort usedNoLater
      deleteAll live (oldest.take (live.entries.length - maxSessions))

/-- The pin of a set. -/
def newPin (targetSpec : Text) (now : Nat) : SessionPin where
  targetSpec := targetSpec
  pinnedAt := now
  lastUsedAt := now
  useCount := 1

def setPin (pins : Pins) (key targetSpec : Text) (now : Nat) : Pins :=
  if key = [] ∨ targetSpec = [] then pins
  else prune ttlMs maxSessions (pins.set key (newPin targetSpec now)) now

def deletePin (pins : Pins) (key : Text) : Pins :=
  pins.delete key

end Manager

/-! ## Pruning -/

section Prune

theorem get?_deleteAll (pins : Pins) (entries : List (Text × SessionPin)) (key : Text) :
    (deleteAll pins entries).get? key
      = if key ∈ entries.map Prod.fst then none else pins.get? key := by
  induction entries generalizing pins with
  | nil => rfl
  | cons entry entries ih =>
    rw [deleteAll, List.foldl_cons, ← deleteAll, ih, OrderedMap.get?_delete]
    by_cases heq : entry.1 = key
    · simp [heq]
    · have hne : key ≠ entry.1 := Ne.symm heq
      simp only [List.map_cons, List.mem_cons, hne, false_or, if_neg heq]

theorem usedNoLater_trans (a b c : Text × SessionPin) (hab : usedNoLater a b = true)
    (hbc : usedNoLater b c = true) : usedNoLater a c = true := by
  rw [usedNoLater, decide_eq_true_eq] at *
  exact Nat.le_trans hab hbc

theorem usedNoLater_total (a b : Text × SessionPin) :
    (usedNoLater a b || usedNoLater b a) = true := by
  rw [usedNoLater, usedNoLater, Bool.or_eq_true, decide_eq_true_eq, decide_eq_true_eq]
  exact Nat.le_total ..

variable {key : Text} {pin : SessionPin} {pins : Pins} {now : Nat}

theorem get?_deleteAll_oldest (pins : Pins) (n : Nat) :
    (deleteAll pins ((pins.entries.mergeSort usedNoLater).take n)).get? key = some pin
      ↔ (key, pin) ∈ (pins.entries.mergeSort usedNoLater).drop n := by
  have hperm := List.mergeSort_perm pins.entries usedNoLater
  have hnodup : ((pins.entries.mergeSort usedNoLater).map Prod.fst).Nodup :=
    (hperm.map Prod.fst).nodup_iff.mpr pins.nodup
  rw [← List.take_append_drop n (pins.entries.mergeSort usedNoLater), List.map_append,
    List.nodup_append] at hnodup
  obtain ⟨-, -, hapart⟩ := hnodup
  rw [get?_deleteAll]
  constructor
  · intro hget
    split at hget
    · cases hget
    · rename_i hkept
      have hmem := hperm.mem_iff.mpr (pins.mem_entries_iff.mpr hget)
      rw [← List.take_append_drop n (pins.entries.mergeSort usedNoLater), List.mem_append] at hmem
      exact hmem.resolve_left fun htaken => hkept (List.mem_map.mpr ⟨_, htaken, rfl⟩)
  · intro hmem
    rw [if_neg fun htaken => hapart key htaken key (List.mem_map.mpr ⟨_, hmem, rfl⟩) rfl]
    exact pins.mem_entries_iff.mp (hperm.mem_iff.mp (List.mem_of_mem_drop hmem))

variable {ttlMs maxSessions : Nat}

theorem get?_removeWhere {p : SessionPin → Bool} :
    (pins.removeWhere p).get? key = some pin ↔ pins.get? key = some pin ∧ p pin = false := by
  rw [← OrderedMap.mem_entries_iff, ← OrderedMap.mem_entries_iff, OrderedMap.removeWhere,
    List.mem_filter, Bool.not_eq_true']

theorem get?_of_get?_prune (h : (prune ttlMs maxSessions pins now).get? key = some pin) :
    pins.get? key = some pin := by
  rw [prune] at h
  split at h
  · exact h
  dsimp only at h
  split at h
  · exact (get?_removeWhere.mp h).1
  · rw [get?_deleteAll_oldest] at h
    have hlive := (List.mergeSort_perm _ _).mem_iff.mp (List.mem_of_mem_drop h)
    exact (get?_removeWhere.mp ((OrderedMap.mem_entries_iff _).mp hlive)).1

theorem length_deleteAll_oldest (pins : Pins) (n : Nat) :
    (deleteAll pins ((pins.entries.mergeSort usedNoLater).take n)).entries.length
      ≤ pins.entries.length - n := by
  have hperm := List.mergeSort_perm pins.entries usedNoLater
  have hlength : ((pins.entries.mergeSort usedNoLater).drop n).length = pins.entries.length - n := by
    rw [List.length_drop, hperm.length_eq]
  rw [← hlength]
  refine (List.Nodup.subperm ?_ fun entry hentry => ?_).length_le
  · exact List.Nodup.of_map Prod.fst (OrderedMap.nodup _)
  · exact (get?_deleteAll_oldest pins n).mp ((OrderedMap.mem_entries_iff _).mp hentry)

/-- **At most `maxSessions` pins remain**. -/
theorem size_prune (pins : Pins) (now : Nat) :
    (prune ttlMs maxSessions pins now).entries.length ≤ maxSessions := by
  rw [prune]
  split
  · assumption
  dsimp only
  split
  · assumption
  · refine (length_deleteAll_oldest _ _).trans ?_
    omega

/-- **What is evicted** is expired, or was used no later than all that remains. -/
theorem prune_evicts (hget : pins.get? key = some pin)
    (hgone : (prune ttlMs maxSessions pins now).get? key = none) :
    pin.expired ttlMs now = true ∨ ∀ key' pin',
      (prune ttlMs maxSessions pins now).get? key' = some pin' → pin.lastUsedAt ≤ pin'.lastUsedAt := by
  rw [or_iff_not_imp_left, Bool.not_eq_true]
  intro hup key' pin' hkept
  have hlive := get?_removeWhere (p := fun entry => entry.expired ttlMs now).mpr ⟨hget, hup⟩
  rw [prune] at hgone hkept
  split at hgone
  · rw [hget] at hgone
    cases hgone
  rename_i hmany
  rw [if_neg hmany] at hkept
  dsimp only at hgone hkept
  split at hgone
  · rw [hlive] at hgone
    cases hgone
  rename_i hstill
  rw [if_neg hstill, get?_deleteAll_oldest] at hkept
  -- the pin is among the first entries, and the other one among the last
  generalize pins.removeWhere (fun entry => entry.expired ttlMs now) = live at hlive hgone hkept
  have hsorted := List.pairwise_mergeSort usedNoLater_trans usedNoLater_total live.entries
  have hmem := (List.mergeSort_perm live.entries usedNoLater).mem_iff.mpr
    (live.mem_entries_iff.mpr hlive)
  rw [← List.take_append_drop (live.entries.length - maxSessions)
    (live.entries.mergeSort usedNoLater)] at hsorted hmem
  have hfirst := (List.mem_append.mp hmem).resolve_right fun hdrop => by
    rw [(get?_deleteAll_oldest live _).mpr hdrop] at hgone
    cases hgone
  exact of_decide_eq_true ((List.pairwise_append.mp hsorted).2.2 _ hfirst _ hkept)

/-- **The pin that was used last**, and came last, remains. -/
theorem prune_last {front : List (Text × SessionPin)}
    (hentries : pins.entries = front ++ [(key, pin)])
    (hlast : ∀ entry ∈ front, entry.2.lastUsedAt ≤ pin.lastUsedAt)
    (hup : pin.expired ttlMs now = false) (hmax : 1 ≤ maxSessions) :
    (prune ttlMs maxSessions pins now).get? key = some pin := by
  have hget : pins.get? key = some pin := by
    rw [← OrderedMap.mem_entries_iff, hentries]
    exact List.mem_append_right _ List.mem_cons_self
  rw [prune]
  split
  · exact hget
  dsimp only
  split
  · exact get?_removeWhere.mpr ⟨hget, hup⟩
  · have hlive : (pins.removeWhere fun entry => entry.expired ttlMs now).entries
        = front.filter (fun entry => !entry.2.expired ttlMs now) ++ [(key, pin)] := by
      have hfilter : (pins.removeWhere fun entry => entry.expired ttlMs now).entries
          = pins.entries.filter fun entry => !entry.2.expired ttlMs now := rfl
      rw [hfilter, hentries, List.filter_append, List.filter_cons_of_pos (by simp [hup]),
        List.filter_nil]
    have hmem : (key, pin) ∈ (pins.removeWhere fun entry => entry.expired ttlMs now).entries := by
      rw [hlive]
      exact List.mem_append_right _ List.mem_cons_self
    have hnodup := List.Nodup.of_map Prod.fst
      (pins.removeWhere fun entry => entry.expired ttlMs now).nodup
    rw [get?_deleteAll_oldest,
      mem_drop_mergeSort_iff usedNoLater_trans usedNoLater_total hnodup hmem, hlive,
      sortedAfter_append]
    · rw [List.filter_nil, List.filter_eq_nil_iff.mpr]
      · exact hmax
      · intro entry hentry
        have hle := hlast entry (List.mem_of_mem_filter hentry)
        simp [usedNoLater, hle]
    · intro hfront
      rw [hlive] at hnodup
      exact (List.nodup_append.mp hnodup).2.2 _ hfront _ List.mem_cons_self rfl

end Prune

/-! ## Runs -/

/-- What a request does with the pins, when it has a key. -/
inductive PinCall where
  | getPin (r : SessionRequest)
  | setPin (r : SessionRequest) (targetSpec : Text)
  | deletePin (r : SessionRequest)
  | prune
  | clear

/-- A call and its time. -/
structure PinEvent where
  call : PinCall
  now : Nat

/-- The request of a call. -/
def PinCall.request? : PinCall → Option SessionRequest
  | getPin r | setPin r _ | deletePin r => some r
  | prune | clear => none

/-- The call is there to delete pins. -/
def PinCall.deletes : PinCall → Bool
  | deletePin _ | clear => true
  | _ => false

section Run

variable (lc : LowerCasing) (hash : Text → Text) (ttlMs maxSessions : Nat)

/-- One call, and the value it reads. -/
def step (pins : Pins) (e : PinEvent) : Pins × Option Text :=
  match e.call with
  | .getPin r =>
    match deriveSessionKey lc hash r with
    | some key => getPin ttlMs pins key e.now
    | none => (pins, none)
  | .setPin r targetSpec =>
    match deriveSessionKey lc hash r with
    | some key => (setPin ttlMs maxSessions pins key targetSpec e.now, none)
    | none => (pins, none)
  | .deletePin r =>
    match deriveSessionKey lc hash r with
    | some key => (deletePin pins key, none)
    | none => (pins, none)
  | .prune => (prune ttlMs maxSessions pins e.now, none)
  | .clear => (OrderedMap.empty, none)

/-- The pins after a run of a new manager. -/
def pinsAfter (events : List PinEvent) : Pins :=
  finalState (step lc hash ttlMs maxSessions) OrderedMap.empty events

/-- The calls of such a run, each with the value it read. -/
def log (events : List PinEvent) : List (PinEvent × Option Text) :=
  history (step lc hash ttlMs maxSessions) OrderedMap.empty events

/-- The target set for an identity, after one more call. -/
def setNext (i : SessionIdentity) (latest : Option Text) (e : PinEvent) : Option Text :=
  match e.call with
  | .setPin r targetSpec =>
    if identityOf lc r = some i ∧ targetSpec ≠ [] then some targetSpec else latest
  | .deletePin r => if identityOf lc r = some i then none else latest
  | .clear => none
  | _ => latest

/-- The target set last for an identity, and not deleted since. -/
def latestSet (before : List PinEvent) (i : SessionIdentity) : Option Text :=
  before.foldl (setNext lc i) none

/-- The call sets a pin for the identity, or reads one. -/
def Uses (i : SessionIdentity) (answered : PinEvent × Option Text) : Prop :=
  match answered.1.call with
  | .setPin r targetSpec => identityOf lc r = some i ∧ targetSpec ≠ []
  | .getPin r => identityOf lc r = some i ∧ answered.2.isSome = true
  | _ => False

/-- What a run shows and evicts, at each of its calls. -/
structure Isolated (events : List PinEvent) : Prop where
  /-- A value that is read was set last for the session and the agent of the request, and used for
  them within the TTL. -/
  reads : ∀ before now r v, before ++ [⟨.getPin r, now⟩] <+: events →
    (step lc hash ttlMs maxSessions (pinsAfter lc hash ttlMs maxSessions before) ⟨.getPin r, now⟩).2
      = some v →
    ∃ i, identityOf lc r = some i ∧ latestSet lc before i = some v ∧
      ∃ answered ∈ log lc hash ttlMs maxSessions before, Uses lc i answered ∧
        now - answered.1.now ≤ ttlMs
  /-- There are never more pins than sessions are allowed. -/
  bounded : ∀ before, before <+: events →
    (pinsAfter lc hash ttlMs maxSessions before).entries.length ≤ maxSessions
  /-- But for deletions, an unexpired pin goes only when all that remain were used no earlier. -/
  evicts : ∀ before e, before ++ [e] <+: events → e.call.deletes = false →
    ∀ key pin, (pinsAfter lc hash ttlMs maxSessions before).get? key = some pin →
      (pinsAfter lc hash ttlMs maxSessions (before ++ [e])).get? key = none →
      pin.expired ttlMs e.now = true ∨ ∀ key' pin',
        (pinsAfter lc hash ttlMs maxSessions (before ++ [e])).get? key' = some pin' →
          pin.lastUsedAt ≤ pin'.lastUsedAt
  /-- The pin that is set remains. -/
  keeps : ∀ before now r targetSpec key, before ++ [⟨.setPin r targetSpec, now⟩] <+: events →
    deriveSessionKey lc hash r = some key → targetSpec ≠ [] →
    (pinsAfter lc hash ttlMs maxSessions (before ++ [⟨.setPin r targetSpec, now⟩])).get? key
      = some (newPin targetSpec now)

/-- No two requests name different sessions and agents by one text. -/
def Unambiguous (R : Set SessionRequest) : Prop :=
  ∀ r ∈ R, ∀ r' ∈ R, ∀ i i' s s', identityOf lc r = some i → identityOf lc r' = some i' →
    i.base = .explicit s → i'.base = .explicit s' →
    compound s i.agentId = compound s' i'.agentId → s = s' ∧ i.agentId = i'.agentId

/-- The calls are those of requests in `R`, and their times do not decrease. -/
structure RunOver (R : Set SessionRequest) (events : List PinEvent) : Prop where
  requests : ∀ e ∈ events, ∀ r, e.call.request? = some r → r ∈ R
  clock : events.Pairwise fun e e' => e.now ≤ e'.now

/-! ## What a pin says -/

/-- The pin of a key is the one set last for an identity with that key. -/
def Held (R : Set SessionRequest) (before : List PinEvent) (key : Text) (pin : SessionPin) : Prop :=
  ∃ i, (∃ r ∈ R, identityOf lc r = some i) ∧ keyOf hash i = key ∧
    latestSet lc before i = some pin.targetSpec ∧
    ∃ answered ∈ log lc hash ttlMs maxSessions before, Uses lc i answered ∧
      answered.1.now = pin.lastUsedAt

variable (before : List PinEvent)

theorem pinsAfter_snoc (e : PinEvent) :
    pinsAfter lc hash ttlMs maxSessions (before ++ [e])
      = (step lc hash ttlMs maxSessions (pinsAfter lc hash ttlMs maxSessions before) e).1 :=
  finalState_snoc ..

theorem log_snoc (e : PinEvent) :
    log lc hash ttlMs maxSessions (before ++ [e]) = log lc hash ttlMs maxSessions before
      ++ [(e, (step lc hash ttlMs maxSessions (pinsAfter lc hash ttlMs maxSessions before) e).2)] :=
  history_snoc ..

theorem latestSet_snoc (e : PinEvent) (i : SessionIdentity) :
    latestSet lc (before ++ [e]) i = setNext lc i (latestSet lc before i) e := by
  rw [latestSet, List.foldl_append]
  rfl

variable {lc hash ttlMs maxSessions}

theorem keyOf_ne_nil (i : SessionIdentity) : keyOf hash i ≠ [] := by
  have hcompound : ∀ (c : CodeUnit) (t : Text) (a : Option Text), compound (c :: t) a ≠ [] := by
    intro c t a
    cases a <;> exact List.cons_ne_nil _ _
  rw [keyOf]
  split
  · exact hcompound _ _ _
  · exact hcompound _ _ _

variable {key : Text}

theorem identityOf_of_key {r : SessionRequest} (h : deriveSessionKey lc hash r = some key) :
    ∃ i, identityOf lc r = some i ∧ keyOf hash i = key := by
  rw [deriveSessionKey_eq] at h
  exact Option.map_eq_some_iff.mp h

theorem identityOf_of_no_key {r : SessionRequest} (h : deriveSessionKey lc hash r = none) :
    identityOf lc r = none := by
  rw [deriveSessionKey_eq] at h
  exact Option.map_eq_none_iff.mp h

variable {R : Set SessionRequest}

theorem Unambiguous.keyOf_inj (h : Unambiguous lc R) (hinj : Function.Injective hash)
    (hcolon : ∀ t, (0x3A : CodeUnit) ∉ hash t) {i i' : SessionIdentity}
    (hi : ∃ r ∈ R, identityOf lc r = some i) (hi' : ∃ r ∈ R, identityOf lc r = some i')
    (hkey : keyOf hash i = keyOf hash i') : i = i' := by
  obtain ⟨r, hr, hri⟩ := hi
  obtain ⟨r', hr', hri'⟩ := hi'
  rcases (keyOf_eq_iff hinj hcolon i i').mp hkey with heq | ⟨s, s', hs, hs', hjoined⟩
  · exact heq
  · obtain ⟨hbase, hagent⟩ := h r hr r' hr' i i' s s' hri hri' hs hs' hjoined
    obtain ⟨base, agentId⟩ := i
    obtain ⟨base', agentId'⟩ := i'
    cases hs
    cases hs'
    rw [hbase, show agentId = agentId' from hagent]

variable {e : PinEvent}

theorem Held.carry {before : List PinEvent} {pin : SessionPin}
    (h : Held lc hash ttlMs maxSessions R before key pin)
    (hnext : ∀ i, keyOf hash i = key → setNext lc i (latestSet lc before i) e = latestSet lc before i) :
    Held lc hash ttlMs maxSessions R (before ++ [e]) key pin := by
  obtain ⟨i, hi, hkey, hlatest, answered, hanswered, huses, hnow⟩ := h
  refine ⟨i, hi, hkey, ?_, answered, ?_, huses, hnow⟩
  · rw [latestSet_snoc, hnext i hkey, hlatest]
  · rw [log_snoc]
    exact List.mem_append_left _ hanswered

section Kept

variable {R : Set SessionRequest} {before : List PinEvent} {e : PinEvent}
  (hheld : ∀ key pin, (pinsAfter lc hash ttlMs maxSessions before).get? key = some pin →
    Held lc hash ttlMs maxSessions R before key pin)
  (hrequest : ∀ r, e.call.request? = some r → r ∈ R)

include hheld hrequest

/-- **Every pin is the one set last**, for an identity with its key: one call. -/
theorem held_step (hR : Unambiguous lc R) (hinj : Function.Injective hash)
    (hcolon : ∀ t, (0x3A : CodeUnit) ∉ hash t) {pin : SessionPin}
    (hget : (pinsAfter lc hash ttlMs maxSessions (before ++ [e])).get? key = some pin) :
    Held lc hash ttlMs maxSessions R (before ++ [e]) key pin := by
  have hlog := log_snoc lc hash ttlMs maxSessions before e
  rw [pinsAfter_snoc] at hget
  obtain ⟨call, now⟩ := e
  cases call with
  | getPin r =>
    have hsame : ∀ i, setNext lc i (latestSet lc before i) ⟨.getPin r, now⟩ = latestSet lc before i :=
      fun _ => rfl
    dsimp only [step] at hget hlog
    cases hkey : deriveSessionKey lc hash r with
    | none =>
      rw [hkey] at hget
      exact (hheld key pin hget).carry fun i _ => hsame i
    | some key₀ =>
      rw [hkey] at hget hlog
      dsimp only [getPin] at hget hlog
      cases hentry : (pinsAfter lc hash ttlMs maxSessions before).get? key₀ with
      | none =>
        rw [hentry] at hget
        exact (hheld key pin hget).carry fun i _ => hsame i
      | some entry =>
        rw [hentry] at hget hlog
        dsimp only at hget hlog
        split at hget
        · rw [OrderedMap.get?_delete] at hget
          split at hget
          · cases hget
          · exact (hheld key pin hget).carry fun i _ => hsame i
        rename_i hup
        rw [if_neg hup] at hlog
        rw [OrderedMap.get?_set] at hget
        split at hget
        · -- the pin that is read is used by its own identity
          rename_i hsameKey
          cases hget
          obtain ⟨i, hi, hikey, hlatest, -⟩ := hheld key₀ entry hentry
          obtain ⟨i₀, hi₀, hi₀key⟩ := identityOf_of_key hkey
          have heq : i = i₀ := hR.keyOf_inj hinj hcolon hi ⟨r, hrequest r rfl, hi₀⟩
            (hikey.trans hi₀key.symm)
          refine ⟨i, hi, hikey.trans hsameKey, ?_, (⟨.getPin r, now⟩, some entry.targetSpec), ?_,
            ⟨heq ▸ hi₀, rfl⟩, rfl⟩
          · rw [latestSet_snoc, hsame, hlatest]
          · rw [hlog]
            exact List.mem_append_right _ List.mem_cons_self
        · exact (hheld key pin hget).carry fun i _ => hsame i
  | setPin r targetSpec =>
    dsimp only [step] at hget hlog
    cases hkey : deriveSessionKey lc hash r with
    | none =>
      rw [hkey] at hget
      refine (hheld key pin hget).carry fun i _ => if_neg fun h => ?_
      rw [identityOf_of_no_key hkey] at h
      cases h.1
    | some key₀ =>
      rw [hkey] at hget hlog
      obtain ⟨i₀, hi₀, hi₀key⟩ := identityOf_of_key hkey
      dsimp only [setPin] at hget
      split at hget
      · rename_i hempty
        have htarget := hempty.resolve_left (hi₀key ▸ keyOf_ne_nil i₀)
        exact (hheld key pin hget).carry fun i _ => if_neg fun h => h.2 htarget
      rename_i hboth
      replace hget := get?_of_get?_prune hget
      rw [OrderedMap.get?_set] at hget
      have htarget : targetSpec ≠ [] := fun h => hboth (.inr h)
      split at hget
      · rename_i hsameKey
        cases hget
        refine ⟨i₀, ⟨r, hrequest r rfl, hi₀⟩, hi₀key.trans hsameKey, ?_,
          (⟨.setPin r targetSpec, now⟩, none), ?_, ⟨hi₀, htarget⟩, rfl⟩
        · rw [latestSet_snoc]
          exact if_pos ⟨hi₀, htarget⟩
        · rw [hlog]
          exact List.mem_append_right _ List.mem_cons_self
      · rename_i hother
        refine (hheld key pin hget).carry fun i hi => if_neg fun h => hother ?_
        rw [← hi₀key, ← hi, Option.some.inj (hi₀.symm.trans h.1)]
  | deletePin r =>
    dsimp only [step] at hget
    cases hkey : deriveSessionKey lc hash r with
    | none =>
      rw [hkey] at hget
      refine (hheld key pin hget).carry fun i _ => if_neg fun h => ?_
      rw [identityOf_of_no_key hkey] at h
      cases h
    | some key₀ =>
      rw [hkey] at hget
      obtain ⟨i₀, hi₀, hi₀key⟩ := identityOf_of_key hkey
      dsimp only [deletePin] at hget
      rw [OrderedMap.get?_delete] at hget
      split at hget
      · cases hget
      · rename_i hother
        refine (hheld key pin hget).carry fun i hi => if_neg fun h => hother ?_
        rw [← hi₀key, ← hi, Option.some.inj (hi₀.symm.trans h)]
  | prune => exact (hheld key pin (get?_of_get?_prune hget)).carry fun i _ => rfl
  | clear => cases hget

end Kept

variable {events : List PinEvent} {key : Text} {pin : SessionPin} {pins : Pins}

variable {R : Set SessionRequest} {before : List PinEvent}

theorem RunOver.of_prefix (h : RunOver R events) (hpre : before <+: events) : RunOver R before where
  requests := fun e he => h.requests e (hpre.subset he)
  clock := h.clock.sublist hpre.sublist

theorem held_run (hR : Unambiguous lc R) (hinj : Function.Injective hash)
    (hcolon : ∀ t, (0x3A : CodeUnit) ∉ hash t) (h : RunOver R events)
    (hget : (pinsAfter lc hash ttlMs maxSessions events).get? key = some pin) :
    Held lc hash ttlMs maxSessions R events key pin := by
  induction events using List.reverseRecOn generalizing key pin with
  | nil => cases hget
  | append_singleton before e ih =>
    refine held_step (fun key pin => ih (h.of_prefix (List.prefix_append ..))) ?_ hR hinj hcolon hget
    exact h.requests e (List.mem_append_right _ List.mem_cons_self)

theorem Held.lastUsedAt_le (h : Held lc hash ttlMs maxSessions R before key pin) {now : Nat}
    (hclock : ∀ e ∈ before, e.now ≤ now) : pin.lastUsedAt ≤ now := by
  obtain ⟨-, -, -, -, answered, hanswered, -, hnow⟩ := h
  rw [← hnow]
  apply hclock
  rw [← map_fst_history (step lc hash ttlMs maxSessions) OrderedMap.empty before]
  exact List.mem_map.mpr ⟨answered, hanswered, rfl⟩

theorem RunOver.now_le (h : RunOver R events) (hpre : before ++ [e] <+: events) :
    ∀ e' ∈ before, e'.now ≤ e.now := by
  have hclock := (h.of_prefix hpre).clock
  rw [List.pairwise_append] at hclock
  exact fun e' he' => hclock.2.2 e' he' e List.mem_cons_self

/-! ## How many pins there are -/

theorem length_delete_le (pins : Pins) (key : Text) :
    (pins.delete key).entries.length ≤ pins.entries.length :=
  List.length_filter_le _ _

theorem length_set_of_get? {old : SessionPin} (h : pins.get? key = some old) (pin : SessionPin) :
    (pins.set key pin).entries.length = pins.entries.length := by
  have hkeys := pins.keys_set key pin
  rw [if_pos (pins.mem_keys_iff.mpr (by rw [h]; rfl))] at hkeys
  simpa [OrderedMap.keys] using congrArg List.length hkeys

/-- **One call** leaves no more pins than sessions are allowed. -/
theorem size_step (h : pins.entries.length ≤ maxSessions) (e : PinEvent) :
    (step lc hash ttlMs maxSessions pins e).1.entries.length ≤ maxSessions := by
  rw [step]
  split
  · split
    · rw [getPin]
      split
      · exact h
      · rename_i key _ entry hget
        split
        · exact (length_delete_le pins _).trans h
        · exact (length_set_of_get? hget _).trans_le h
    · exact h
  · split
    · rw [setPin]
      split
      · exact h
      · exact size_prune _ _
    · exact h
  · split
    · exact (length_delete_le pins _).trans h
    · exact h
  · exact size_prune _ _
  · exact Nat.zero_le _

theorem size_run (events : List PinEvent) :
    (pinsAfter lc hash ttlMs maxSessions events).entries.length ≤ maxSessions :=
  finalState_invariant _ (I := fun pins : Pins => pins.entries.length ≤ maxSessions) (Nat.zero_le _)
    (fun _ e h => size_step h e) events

/-! ## What a set leaves -/

/-- **The pin that is set remains**, where no pin was used later. -/
theorem get?_setPin {now : Nat} (hsize : pins.entries.length ≤ maxSessions)
    (hclock : ∀ key pin, pins.get? key = some pin → pin.lastUsedAt ≤ now) (hmax : 1 ≤ maxSessions)
    {targetSpec : Text} (hkey : key ≠ []) (htarget : targetSpec ≠ []) :
    (setPin ttlMs maxSessions pins key targetSpec now).get? key = some (newPin targetSpec now) := by
  have hup : (newPin targetSpec now).expired ttlMs now = false := by
    simp [SessionPin.expired, newPin]
  rw [setPin, if_neg (not_or.mpr ⟨hkey, htarget⟩)]
  cases hget : pins.get? key with
  | some old =>
    -- the number of pins is what it was
    rw [prune, if_pos ((length_set_of_get? hget _).trans_le hsize), OrderedMap.get?_set_self]
  | none =>
    refine prune_last (OrderedMap.entries_set_of_none _ hget) (fun entry hentry => ?_) hup hmax
    exact hclock entry.1 entry.2 (pins.mem_entries_iff.mp hentry)

theorem evicts_step (hsize : pins.entries.length ≤ maxSessions)
    (hclock : ∀ key pin, pins.get? key = some pin → pin.lastUsedAt ≤ e.now)
    (hmax : 1 ≤ maxSessions) (hcall : e.call.deletes = false) (hget : pins.get? key = some pin)
    (hgone : (step lc hash ttlMs maxSessions pins e).1.get? key = none) :
    pin.expired ttlMs e.now = true ∨ ∀ key' pin',
      (step lc hash ttlMs maxSessions pins e).1.get? key' = some pin' →
        pin.lastUsedAt ≤ pin'.lastUsedAt := by
  have hstays : pins.get? key ≠ none := by rw [hget]; exact Option.some_ne_none pin
  obtain ⟨call, now⟩ := e
  cases call with
  | getPin r =>
    dsimp only [step] at hgone
    split at hgone
    · rw [getPin] at hgone
      split at hgone
      · exact absurd hgone hstays
      rename_i key₀ _ entry hentry
      split at hgone
      · rename_i hexpired
        rw [OrderedMap.get?_delete] at hgone
        split at hgone
        · rename_i heq
          subst heq
          rw [hget] at hentry
          cases hentry
          exact .inl hexpired
        · exact absurd hgone hstays
      · rw [OrderedMap.get?_set] at hgone
        split at hgone
        · cases hgone
        · exact absurd hgone hstays
    · exact absurd hgone hstays
  | setPin r targetSpec =>
    dsimp only [step] at hgone ⊢
    cases hderive : deriveSessionKey lc hash r with
    | none =>
      rw [hderive] at hgone
      exact absurd hgone hstays
    | some key₀ =>
      rw [hderive] at hgone
      dsimp only at hgone ⊢
      by_cases hboth : key₀ = [] ∨ targetSpec = []
      · rw [setPin, if_pos hboth] at hgone
        exact absurd hgone hstays
      by_cases heq : key₀ = key
      · -- the pin of the key that is set is replaced
        rw [← heq, get?_setPin hsize hclock hmax (not_or.mp hboth).1 (not_or.mp hboth).2] at hgone
        cases hgone
      · rw [setPin, if_neg hboth] at hgone ⊢
        exact prune_evicts ((OrderedMap.get?_set_of_ne _ _ heq).trans hget) hgone
  | deletePin r => cases hcall
  | prune => exact prune_evicts hget hgone
  | clear => cases hcall

/-! ## Isolation -/

theorem isolated_of_unambiguous (hinj : Function.Injective hash)
    (hcolon : ∀ t, (0x3A : CodeUnit) ∉ hash t) (hmax : 1 ≤ maxSessions) (hR : Unambiguous lc R)
    (h : RunOver R events) : Isolated lc hash ttlMs maxSessions events := by
  have hheld : ∀ {before}, before <+: events → ∀ {key pin},
      (pinsAfter lc hash ttlMs maxSessions before).get? key = some pin →
      Held lc hash ttlMs maxSessions R before key pin := fun hpre _ _ =>
    held_run hR hinj hcolon (h.of_prefix hpre)
  have hbefore : ∀ {before e}, before ++ [e] <+: events → before <+: events := fun hpre =>
    (List.prefix_append _ _).trans hpre
  have hclock : ∀ {before e}, before ++ [e] <+: events → ∀ key pin,
      (pinsAfter lc hash ttlMs maxSessions before).get? key = some pin → pin.lastUsedAt ≤ e.now :=
    fun hpre _ _ hget => (hheld (hbefore hpre) hget).lastUsedAt_le (h.now_le hpre)
  constructor
  · intro before now r v hpre hread
    dsimp only [step] at hread
    cases hkey : deriveSessionKey lc hash r with
    | none =>
      rw [hkey] at hread
      cases hread
    | some key =>
      rw [hkey] at hread
      dsimp only [getPin] at hread
      split at hread
      · cases hread
      rename_i entry hentry
      split at hread
      · cases hread
      rename_i hup
      cases hread
      obtain ⟨i, hi, hikey, hlatest, answered, hanswered, huses, hnow⟩ :=
        hheld (hbefore hpre) hentry
      obtain ⟨i₀, hi₀, hi₀key⟩ := identityOf_of_key hkey
      have hr : r ∈ R := h.requests _ (hpre.subset (List.mem_append_right _ List.mem_cons_self)) r rfl
      have heq : i = i₀ := hR.keyOf_inj hinj hcolon hi ⟨r, hr, hi₀⟩ (hikey.trans hi₀key.symm)
      refine ⟨i, heq ▸ hi₀, hlatest, answered, hanswered, huses, ?_⟩
      rw [SessionPin.expired, decide_eq_true_eq] at hup
      omega
  · exact fun before _ => size_run before
  · intro before e hpre hcall key pin hget hgone
    rw [pinsAfter_snoc] at hgone ⊢
    exact evicts_step (size_run before) (hclock hpre) hmax hcall hget hgone
  · intro before now r targetSpec key hpre hkey htarget
    obtain ⟨i, -, hi⟩ := identityOf_of_key hkey
    rw [pinsAfter_snoc]
    dsimp only [step]
    rw [hkey]
    exact get?_setPin (size_run before) (hclock hpre) hmax (hi ▸ keyOf_ne_nil i) htarget

theorem unambiguous_of_isolated
    (h : ∀ events, RunOver R events → Isolated lc hash ttlMs maxSessions events) :
    Unambiguous lc R := by
  intro r hr r' hr' i i' s s' hi hi' hs hs' hjoined
  have hkey : keyOf hash i = keyOf hash i' := by
    rw [keyOf, keyOf, hs, hs']
    dsimp only
    rw [← append_compound, ← append_compound, hjoined]
  have hderive : deriveSessionKey lc hash r = some (keyOf hash i) := by
    rw [deriveSessionKey_eq, hi, Option.map_some]
  have hderive' : deriveSessionKey lc hash r' = some (keyOf hash i) := by
    rw [deriveSessionKey_eq, hi', Option.map_some, hkey]
  have htarget : text "t" ≠ [] := by decide
  -- the first request sets a pin, and the other one reads
  have hover : RunOver R [⟨.setPin r (text "t"), 0⟩, ⟨.getPin r', 0⟩] := by
    refine ⟨?_, List.pairwise_pair.mpr (Nat.le_refl 0)⟩
    intro e he q hq
    rcases List.mem_cons.mp he with rfl | he
    · exact Option.some.inj hq ▸ hr
    · rcases List.mem_singleton.mp he with rfl
      exact Option.some.inj hq ▸ hr'
  have hisolated := h _ hover
  have hpin : (pinsAfter lc hash ttlMs maxSessions [⟨.setPin r (text "t"), 0⟩]).get? (keyOf hash i)
      = some (newPin (text "t") 0) :=
    hisolated.keeps [] 0 r (text "t") _ ⟨_, rfl⟩ hderive htarget
  have hread : (step lc hash ttlMs maxSessions
      (pinsAfter lc hash ttlMs maxSessions [⟨.setPin r (text "t"), 0⟩]) ⟨.getPin r', 0⟩).2
      = some (text "t") := by
    dsimp only [step]
    rw [hderive']
    dsimp only [getPin]
    rw [hpin]
    simp [SessionPin.expired, newPin]
  obtain ⟨j, hj, hlatest, -⟩ := hisolated.reads [⟨.setPin r (text "t"), 0⟩] 0 r' _ List.prefix_rfl hread
  -- so the pin it read was set by a request with its identity
  have hsame : i = i' := by
    have hset : latestSet lc [⟨.setPin r (text "t"), 0⟩] j
        = if identityOf lc r = some j ∧ text "t" ≠ [] then some (text "t") else none := rfl
    rw [hset] at hlatest
    split at hlatest
    · rename_i hidentity
      exact Option.some.inj (hi.symm.trans (hidentity.1.trans (hj.symm.trans hi')))
    · cases hlatest
  subst hsame
  rw [hs] at hs'
  cases hs'
  exact ⟨rfl, rfl⟩

end Run

/-- **Sticky sessions are isolated** exactly over requests that are unambiguous: in every run over
them whose clock does not go back, a request reads the target set last for its session and agent and
used for them within the TTL, no more pins remain than are allowed, an unexpired pin goes only when
the others were used no earlier, and the pin that is set remains. Over other requests, with explicit
sessions that differ, one reads what the other has set. -/
theorem sticky_isolation_iff (lc : LowerCasing) {hash : Text → Text}
    (hinj : Function.Injective hash) (hcolon : ∀ t, (0x3A : CodeUnit) ∉ hash t)
    (ttlMs : Nat) {maxSessions : Nat} (hmax : 1 ≤ maxSessions) (R : Set SessionRequest) :
    (∀ events, RunOver R events → Isolated lc hash ttlMs maxSessions events) ↔ Unambiguous lc R :=
  ⟨unambiguous_of_isolated, fun hR _ => isolated_of_unambiguous hinj hcolon hmax hR⟩

/-- A hash that is injective: every unit as an escape. -/
def escapes (t : Text) : Text :=
  t.flatMap Json.unicodeEscape

theorem escapes_injective : Function.Injective escapes := by
  intro t u h
  have hlength : ∀ v, (escapes v).length = 6 * v.length := by
    intro v
    induction v with
    | nil => rfl
    | cons c v ih =>
      rw [escapes, List.flatMap_cons, List.length_append, ← escapes]
      simp only [Json.unicodeEscape, List.length_cons, List.length_nil]
      omega
  induction t generalizing u with
  | nil =>
    have hnil := congrArg List.length h
    rw [hlength, hlength, List.length_nil] at hnil
    exact (List.eq_nil_of_length_eq_zero (by omega)).symm
  | cons c t ih =>
    cases u with
    | nil => cases h
    | cons d u =>
      obtain ⟨hunit, hrest⟩ := List.append_inj h rfl
      have hhex := Json.hex4?_unicodeEscape c
      simp only [Json.unicodeEscape, List.cons.injEq, true_and] at hunit
      obtain ⟨h₁, h₂, h₃, h₄, -⟩ := hunit
      rw [h₁, h₂, h₃, h₄, Json.hex4?_unicodeEscape] at hhex
      rw [Option.some.inj hhex, ih hrest]

theorem escapes_colon (t : Text) : (0x3A : CodeUnit) ∉ escapes t := by
  have hdigit : ∀ d < 16, Json.hexUnit d ≠ 0x3A := by decide
  intro h
  obtain ⟨c, -, hc⟩ := List.mem_flatMap.mp h
  have hlt := c.toNat_lt
  simp only [Json.unicodeEscape, List.mem_cons, List.not_mem_nil, or_false] at hc
  rcases hc with hc | hc | hc | hc | hc | hc
  · exact absurd hc (by decide)
  · exact absurd hc (by decide)
  · exact hdigit _ (by omega) hc.symm
  · exact hdigit _ (by omega) hc.symm
  · exact hdigit _ (by omega) hc.symm
  · exact hdigit _ (by omega) hc.symm

/-- A request of a session. -/
def parentRequest (session : Text) : SessionRequest where
  headers := [(text "X-LLM-Relay-Session", .one session)]
  reqJson := none

/-- A request of an agent in the session. -/
def agentRequest (session agent : Text) : SessionRequest where
  headers := [(STICKY_SESSION_HEADER, .one session), (CLAUDE_AGENT_ID_HEADER, .many [agent])]
  reqJson := none

theorem sticky_isolation_parent_and_agent :
    (∀ events, RunOver {parentRequest (text "a"), agentRequest (text "a") (text "b")} events →
        Isolated .basic escapes DEFAULT_STICKY_TTL_MS DEFAULT_STICKY_MAX_SESSIONS events)
      ↔ Unambiguous .basic {parentRequest (text "a"), agentRequest (text "a") (text "b")} :=
  sticky_isolation_iff .basic escapes_injective escapes_colon DEFAULT_STICKY_TTL_MS (by decide) _

/-- The session `a::b` has the key of the agent `b` in the session `a`. -/
theorem session_reads_pin_of_agent :
    ¬ Isolated .basic escapes DEFAULT_STICKY_TTL_MS DEFAULT_STICKY_MAX_SESSIONS
      [⟨.setPin (parentRequest (text "a::b")) (text "t"), 0⟩,
        ⟨.getPin (agentRequest (text "a") (text "b")), 1⟩] := by
  intro h
  obtain ⟨i, hi, hlatest, -⟩ := h.reads [⟨.setPin (parentRequest (text "a::b")) (text "t"), 0⟩] 1
    (agentRequest (text "a") (text "b")) (text "t") List.prefix_rfl (by decide +kernel)
  have hagent : identityOf .basic (agentRequest (text "a") (text "b"))
      = some { base := .explicit (text "a"), agentId := some (text "b") } := by decide +kernel
  cases hagent.symm.trans hi
  exact absurd hlatest (by decide +kernel)

end LlmRelay.Sessions
