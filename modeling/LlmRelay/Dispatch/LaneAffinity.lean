import LlmRelay.Dashboard.SafeId
import LlmRelay.Ecma.Strings
import LlmRelay.Ecma.Table

/-!
# What is remembered of lanes

For each tier and lane a pin promotes the lane that answered last and a demotion orders one that
failed behind the others, each until a time (`lane-affinity.ts`). The rows are filed under one
text that joins the kind, the tier and the lane.

## Main definitions

* `LaneKey`, `memoryKey`: what a row is about, and the text it is filed under;
* `LaneMemory`: the rows, filed under the texts;
* `pinLane`, `demoteLane`, `recall_`, `clearLaneAffinity`, `forgetLaneMemory`,
  `exportLaneAffinityRows`, `restoreLaneAffinityRows`: the operations;
* `isLaneAffinityRow`: the rows that are read back from a file;
* `rowOf`: the row that the operations about one key leave for it.

## Main results

* `plain_iff`: the keys whose text is that of no other key;
* `lane_affinity_map_iff`: every read is that of a map by tier, lane and kind exactly where the
  rows are recorded for such keys, and a restart keeps every row exactly where the rows are
  admitted and not held for longer than the ceiling;
* `held_within_ceiling`: no row is, on a clock that does not go back.
-/

namespace LlmRelay.Dispatch

open Ecma Dashboard

/-! ## Rows -/

inductive LaneAffinityKind where
  | pin | demote
  deriving DecidableEq

def LaneAffinityKind.name : LaneAffinityKind → Text
  | .pin => text "pin"
  | .demote => text "demote"

/-- What a row is about. -/
structure LaneKey where
  kind : LaneAffinityKind
  tier : Option Text
  laneId : Text
  deriving DecidableEq

def memoryKey (key : LaneKey) : Text :=
  key.kind.name ++ text ":" ++ key.tier.getD [] ++ text ":" ++ key.laneId

structure LaneAffinityRow where
  tier : Option Text
  laneId : Text
  kind : LaneAffinityKind
  until_ : Number
  reason : Text
  deriving DecidableEq

def LaneAffinityRow.key (row : LaneAffinityRow) : LaneKey :=
  ⟨row.kind, row.tier, row.laneId⟩

/-- Has the time of the row come? -/
def LaneAffinityRow.isLapsed (row : LaneAffinityRow) (now : Number) : Bool :=
  row.until_.le now

def MAX_AFFINITY_MS : Number := 21600000

def MAX_REASON_CHARS : Nat := 200

def MAX_LANE_ID_CHARS : Nat := 200

def MAX_TIER_CHARS : Nat := 64

/-- `LANE_AFFINITY_DEFAULT_TTL_MS`. -/
def defaultWindowFor : LaneAffinityKind → Number
  | .pin => 900000
  | .demote => 900000

/-- A duration that is missing or not finite is the default one. -/
def clampWindow (ttlMs : Option Number) (fallback : Number) : Number :=
  let raw := (ttlMs.filter Number.isFinite).getD fallback
  MAX_AFFINITY_MS.min (Number.max 0 raw)

/-! ## Operations -/

/-- The rows of a config, filed under the texts of their keys. -/
abbrev LaneMemory := Table LaneAffinityRow.key memoryKey

def rowFor (key : LaneKey) (reason : Text) (ttlMs now : Number) : LaneAffinityRow :=
  ⟨key.tier, key.laneId, key.kind, now.add ttlMs, reason.take MAX_REASON_CHARS⟩

def remember (m : LaneMemory) (key : LaneKey) (reason : Text) (ttlMs now : Number) : LaneMemory :=
  if key.laneId = [] then m else m.put (rowFor key reason ttlMs now)

def pinLane (m : LaneMemory) (tier : Option Text) (laneId reason : Text) (ttlMs : Option Number)
    (now : Number) : LaneMemory :=
  remember m ⟨.pin, tier, laneId⟩ reason (clampWindow ttlMs (defaultWindowFor .pin)) now

def demoteLane (m : LaneMemory) (tier : Option Text) (laneId reason : Text) (ttlMs : Option Number)
    (now : Number) : LaneMemory :=
  remember m ⟨.demote, tier, laneId⟩ reason (clampWindow ttlMs (defaultWindowFor .demote)) now

/-- Reads a row, and deletes it where its time has come. -/
def recall_ (m : LaneMemory) (key : LaneKey) (now : Number) : LaneMemory × Option LaneAffinityRow :=
  match m.rows.get? (memoryKey key) with
  | none => (m, none)
  | some row => if row.isLapsed now then (m.delete key, none) else (m, some row)

def clearLaneAffinity (m : LaneMemory) (tier : Option Text) (laneId : Text) : LaneMemory :=
  (m.delete ⟨.pin, tier, laneId⟩).delete ⟨.demote, tier, laneId⟩

/-- Deletes a row, and says whether its time had not come. -/
def forgetLaneMemory (m : LaneMemory) (key : LaneKey) (now : Number) : LaneMemory × Bool :=
  match m.rows.get? (memoryKey key) with
  | none => (m, false)
  | some row => (m.delete key, now.lt row.until_)

/-- The rows whose time has not come, in the order of their texts; the others are deleted. -/
def exportLaneAffinityRows (m : LaneMemory) (now : Number) : LaneMemory × List LaneAffinityRow :=
  let live := m.removeWhere fun row => row.isLapsed now
  (live, live.rows.values.mergeSort fun a b => decide (¬ memoryKey b.key < memoryKey a.key))

/-- A row that is restored is not held for longer than the ceiling. -/
def clampRow (row : LaneAffinityRow) (now : Number) : LaneAffinityRow :=
  { row with until_ := row.until_.min (now.add MAX_AFFINITY_MS) }

/-- Restores the rows whose time has not come; a row that is there stays. -/
def restoreLaneAffinityRows (m : LaneMemory) (rows : List LaneAffinityRow) (now : Number) :
    LaneMemory :=
  rows.foldl (fun m row => if row.isLapsed now then m else m.putNew (clampRow row now)) m

/-- Is the row admitted from a file? -/
def isLaneAffinityRow (row : LaneAffinityRow) : Bool :=
  (row.tier.all fun tier =>
      1 ≤ tier.length && tier.length ≤ MAX_TIER_CHARS && isDashboardSafeId tier) &&
    (1 ≤ row.laneId.length && row.laneId.length ≤ MAX_LANE_ID_CHARS &&
      isDashboardSafeId row.laneId) &&
    (row.until_.isFinite && !row.until_.lt 0) && row.reason.length ≤ MAX_REASON_CHARS

/-! ## Runs -/

/-- An operation on the memory of a config. -/
inductive AffinityOp where
  | pin (tier : Option Text) (laneId reason : Text) (ttlMs : Option Number) (now : Number)
  | demote (tier : Option Text) (laneId reason : Text) (ttlMs : Option Number) (now : Number)
  | read (key : LaneKey) (now : Number)
  | clear (tier : Option Text) (laneId : Text)
  | forget (key : LaneKey) (now : Number)
  | exportRows (now : Number)
  | restore (rows : List LaneAffinityRow) (now : Number)
  deriving DecidableEq

/-- The memory after an operation. -/
def stepAffinity (m : LaneMemory) : AffinityOp → LaneMemory
  | .pin tier laneId reason ttlMs now => pinLane m tier laneId reason ttlMs now
  | .demote tier laneId reason ttlMs now => demoteLane m tier laneId reason ttlMs now
  | .read key now => (recall_ m key now).1
  | .clear tier laneId => clearLaneAffinity m tier laneId
  | .forget key now => (forgetLaneMemory m key now).1
  | .exportRows now => (exportLaneAffinityRows m now).1
  | .restore rows now => restoreLaneAffinityRows m rows now

/-- The memory after some operations on an empty one. -/
def memoryAfter (ops : List AffinityOp) : LaneMemory :=
  ops.foldl stepAffinity .empty

/-- The keys that an operation records a row for. -/
def AffinityOp.records : AffinityOp → List LaneKey
  | .pin tier laneId _ _ _ => if laneId = [] then [] else [⟨.pin, tier, laneId⟩]
  | .demote tier laneId _ _ _ => if laneId = [] then [] else [⟨.demote, tier, laneId⟩]
  | .restore rows now => (rows.filter fun row => !row.isLapsed now).map LaneAffinityRow.key
  | _ => []

/-! ## A map by key -/

/-- What an operation makes of the row of a key: one about another key leaves it. -/
def rowAfter (key : LaneKey) (row : Option LaneAffinityRow) : AffinityOp → Option LaneAffinityRow
  | .pin tier laneId reason ttlMs now =>
    if laneId ≠ [] ∧ key = ⟨.pin, tier, laneId⟩ then
      some (rowFor key reason (clampWindow ttlMs (defaultWindowFor .pin)) now)
    else row
  | .demote tier laneId reason ttlMs now =>
    if laneId ≠ [] ∧ key = ⟨.demote, tier, laneId⟩ then
      some (rowFor key reason (clampWindow ttlMs (defaultWindowFor .demote)) now)
    else row
  | .read other now => if other = key then row.filter fun row => !row.isLapsed now else row
  | .clear tier laneId => if key.tier = tier ∧ key.laneId = laneId then none else row
  | .forget other _ => if other = key then none else row
  | .exportRows now => row.filter fun row => !row.isLapsed now
  | .restore rows now =>
    row.or ((rows.find? fun row => !row.isLapsed now && decide (row.key = key)).map fun row =>
      clampRow row now)

/-- The row of a key after some operations. -/
def rowOf (key : LaneKey) (ops : List AffinityOp) : Option LaneAffinityRow :=
  ops.foldl (rowAfter key) none

variable {key : LaneKey} {op : AffinityOp} {row : LaneAffinityRow} {ops : List AffinityOp}
  {now : Number}

theorem key_of_rowAfter {old : Option LaneAffinityRow} (hold : ∀ row ∈ old, row.key = key)
    (h : rowAfter key old op = some row) : row.key = key := by
  cases op with
  | pin | demote =>
    simp only [rowAfter] at h
    split at h
    · rw [← Option.some.inj h]
      rfl
    · exact hold row h
  | read =>
    simp only [rowAfter] at h
    split at h
    · exact hold row (Option.filter_eq_some_iff.mp h).1
    · exact hold row h
  | clear | forget =>
    simp only [rowAfter] at h
    split at h
    · cases h
    · exact hold row h
  | exportRows => exact hold row (Option.filter_eq_some_iff.mp h).1
  | restore rows now =>
    rcases Option.or_eq_some_iff.mp h with hstays | ⟨-, hnew⟩
    · exact hold row hstays
    · obtain ⟨found, hfound, rfl⟩ := Option.map_eq_some_iff.mp hnew
      have hkey := List.find?_some hfound
      rw [Bool.and_eq_true, decide_eq_true_eq] at hkey
      exact hkey.2

theorem key_of_rowOf : ∀ row ∈ rowOf key ops, row.key = key := by
  induction ops using List.reverseRecOn with
  | nil => exact fun _ h => nomatch h
  | append_singleton ops op ih =>
    intro row h
    unfold rowOf at h
    rw [List.foldl_append, List.foldl_cons] at h
    exact key_of_rowAfter ih h

/-! ## Plain keys -/

def colon : CodeUnit := 0x3A

/-- A tier is stated and not empty, and neither part has a colon. -/
def LaneKey.Plain (key : LaneKey) : Prop :=
  ∃ tier, key.tier = some tier ∧ tier ≠ [] ∧ colon ∉ tier ∧ colon ∉ key.laneId

theorem memoryKey_eq (key : LaneKey) :
    memoryKey key = key.kind.name ++ colon :: (key.tier.getD [] ++ colon :: key.laneId) := by
  have htext : text ":" = [colon] := rfl
  simp [memoryKey, htext]

theorem kind_of_memoryKey_eq {other : LaneKey} (h : memoryKey other = memoryKey key) :
    other.kind = key.kind ∧
      other.tier.getD [] ++ colon :: other.laneId = key.tier.getD [] ++ colon :: key.laneId := by
  rw [memoryKey_eq, memoryKey_eq] at h
  obtain ⟨kind, tier, laneId⟩ := key
  obtain ⟨kind', tier', laneId'⟩ := other
  -- the kinds differ in their first letter
  cases kind <;> cases kind'
  · exact ⟨rfl, by simpa using h⟩
  · have hletter : (0x64 : CodeUnit) = 0x70 := (List.cons.inj h).1
    exact absurd hletter (by decide)
  · have hletter : (0x70 : CodeUnit) = 0x64 := (List.cons.inj h).1
    exact absurd hletter (by decide)
  · exact ⟨rfl, by simpa using h⟩

/-- **The plain keys** are those whose text is that of no other key. -/
theorem plain_iff (key : LaneKey) :
    key.Plain ↔ ∀ other, memoryKey other = memoryKey key → other = key := by
  constructor
  · rintro ⟨tier, htier, hne, htext, hlane⟩ other h
    obtain ⟨hkind, hrest⟩ := kind_of_memoryKey_eq h
    rw [htier] at hrest
    obtain ⟨htier', hlane'⟩ := (forall_eq_of_joined_iff _ _ _).mpr ⟨htext, hlane⟩ _ _ hrest
    obtain ⟨kind', tier', laneId'⟩ := other
    cases tier' with
    | none => exact absurd htier'.symm hne
    | some tier' =>
      obtain ⟨kind, _, laneId⟩ := key
      cases htier
      cases htier'
      cases hlane'
      cases hkind
      rfl
  · intro h
    obtain ⟨kind, tier, laneId⟩ := key
    cases tier with
    | none => exact absurd (h ⟨kind, some [], laneId⟩ rfl) (by simp)
    | some tier =>
      have hsplit := forall_eq_of_joined_iff colon tier laneId |>.mp
        fun xs ys heq => by
          have hkey := h ⟨kind, some xs, ys⟩ (by
            rw [memoryKey_eq, memoryKey_eq]
            exact congrArg _ (congrArg _ heq))
          cases hkey
          exact ⟨rfl, rfl⟩
      refine ⟨tier, rfl, ?_, hsplit⟩
      rintro rfl
      exact absurd (h ⟨kind, none, laneId⟩ rfl) (by simp)

/-! ## The memory is a map by key -/

/-- Rows are held for plain keys only. -/
def PlainRows (m : LaneMemory) : Prop :=
  ∀ row ∈ m.rows.values, row.key.Plain

variable {m : LaneMemory}

variable (h : PlainRows m)

include h

theorem apart_of_plain (key : LaneKey) : m.Apart key :=
  fun row hmem hcode => ((plain_iff row.key).mp (h row hmem) key hcode.symm).symm

theorem plainRows_delete (key : LaneKey) : PlainRows (m.delete key) :=
  fun row hmem => h row (Table.mem_values_delete_iff.mp hmem).1

theorem plainRows_put (hrow : row.key.Plain) : PlainRows (m.put row) := by
  intro other hother
  rcases Table.mem_values_put hother with rfl | hold
  · exact hrow
  · exact h other hold

theorem index_delete (key other : LaneKey) :
    (m.delete key).index.get? other = if key = other then none else m.index.get? other := by
  rw [Table.index_delete_of_apart (apart_of_plain h key), OrderedMap.get?_delete]

theorem remember_spec (key : LaneKey) (reason : Text) (ttlMs now : Number)
    (hkey : ∀ other ∈ if key.laneId = [] then [] else [key], other.Plain) :
    PlainRows (remember m key reason ttlMs now) ∧
      ∀ other, (remember m key reason ttlMs now).index.get? other
        = if key.laneId ≠ [] ∧ other = key then some (rowFor other reason ttlMs now)
          else m.index.get? other := by
  unfold remember
  by_cases hempty : key.laneId = []
  · rw [if_pos hempty]
    exact ⟨h, fun other => (if_neg fun hboth => hboth.1 hempty).symm⟩
  · have hplain := hkey key (by rw [if_neg hempty]; exact List.mem_singleton_self key)
    rw [if_neg hempty]
    refine ⟨plainRows_put h hplain, fun other => ?_⟩
    rw [Table.index_put_of_apart (apart_of_plain h _), OrderedMap.get?_set]
    change (if key = other then _ else _) = _
    by_cases hother : other = key
    · rw [if_pos hother.symm, if_pos ⟨hempty, hother⟩, hother]
    · rw [if_neg (Ne.symm hother), if_neg fun hboth => hother hboth.2]

theorem recall_spec (key : LaneKey) (now : Number) :
    (recall_ m key now).2 = (m.index.get? key).filter (fun row => !row.isLapsed now) ∧
      PlainRows (recall_ m key now).1 ∧
      ∀ other, (recall_ m key now).1.index.get? other
        = if key = other then (m.index.get? other).filter fun row => !row.isLapsed now
          else m.index.get? other := by
  unfold recall_
  rw [Table.get?_of_apart (apart_of_plain h key)]
  cases hfound : m.index.get? key with
  | none =>
    dsimp only
    refine ⟨rfl, h, fun other => ?_⟩
    split
    · rename_i heq
      rw [← heq, hfound, Option.filter_none]
    · rfl
  | some row =>
    dsimp only
    rw [Option.filter_some]
    cases hlapsed : row.isLapsed now with
    | true =>
      refine ⟨rfl, plainRows_delete h key, fun other => ?_⟩
      rw [if_pos rfl, index_delete h]
      split
      · rename_i heq
        rw [← heq, hfound, Option.filter_some, hlapsed]
        rfl
      · rfl
    | false =>
      rw [if_neg Bool.false_ne_true]
      refine ⟨rfl, h, fun other => ?_⟩
      split
      · rename_i heq
        rw [← heq, hfound, Option.filter_some, hlapsed]
        rfl
      · rfl

theorem clear_spec (tier : Option Text) (laneId : Text) :
    PlainRows (clearLaneAffinity m tier laneId) ∧
      ∀ other, (clearLaneAffinity m tier laneId).index.get? other
        = if other.tier = tier ∧ other.laneId = laneId then none else m.index.get? other := by
  have hfirst := plainRows_delete h ⟨.pin, tier, laneId⟩
  refine ⟨plainRows_delete hfirst _, fun other => ?_⟩
  unfold clearLaneAffinity
  rw [index_delete hfirst, index_delete h]
  obtain ⟨kind, tier', laneId'⟩ := other
  -- the keys of the lane are the two that are deleted
  cases kind <;> simp only [LaneKey.mk.injEq, reduceCtorEq, true_and, false_and, if_false,
    eq_comm (a := tier), eq_comm (a := laneId)]

theorem forget_spec (key : LaneKey) (now : Number) :
    PlainRows (forgetLaneMemory m key now).1 ∧
      ∀ other, (forgetLaneMemory m key now).1.index.get? other
        = if key = other then none else m.index.get? other := by
  unfold forgetLaneMemory
  rw [Table.get?_of_apart (apart_of_plain h key)]
  cases hfound : m.index.get? key with
  | none =>
    dsimp only
    refine ⟨h, fun other => ?_⟩
    split
    · rename_i heq
      rw [← heq, hfound]
    · rfl
  | some row => exact ⟨plainRows_delete h key, index_delete h key⟩

theorem export_spec (now : Number) :
    PlainRows (exportLaneAffinityRows m now).1 ∧
      ∀ other, (exportLaneAffinityRows m now).1.index.get? other
        = (m.index.get? other).filter fun row => !row.isLapsed now := by
  refine ⟨fun row hmem => ?_, fun other => Table.get?_index_removeWhere _ _ other⟩
  have hkept : row ∈ (m.removeWhere fun row => row.isLapsed now).rows.values := hmem
  rw [Table.values_removeWhere] at hkept
  exact h row (List.mem_filter.mp hkept).1

omit h

theorem restoreLaneAffinityRows_eq (m : LaneMemory) (rows : List LaneAffinityRow) (now : Number) :
    restoreLaneAffinityRows m rows now
      = ((rows.filter fun row => !row.isLapsed now).map fun row =>
          clampRow row now).foldl Table.putNew m := by
  rw [List.foldl_map, List.foldl_filter]
  refine congrArg (fun f => rows.foldl f m) ?_
  funext m row
  cases row.isLapsed now <;> rfl

theorem restore_spec (h : PlainRows m) {rows : List LaneAffinityRow}
    (hrows : ∀ row ∈ rows, row.isLapsed now = false → row.key.Plain) :
    PlainRows (restoreLaneAffinityRows m rows now) ∧
      ∀ other, (restoreLaneAffinityRows m rows now).index.get? other
        = (m.index.get? other).or
          ((rows.find? fun row => !row.isLapsed now && decide (row.key = other)).map fun row =>
            clampRow row now) := by
  unfold restoreLaneAffinityRows
  induction rows generalizing m with
  | nil => exact ⟨h, fun other => (Option.or_none).symm⟩
  | cons row rows ih =>
    have hrest := fun row' hmem => hrows row' (List.mem_cons_of_mem row hmem)
    rw [List.foldl_cons]
    by_cases hlapsed : row.isLapsed now = true
    · rw [if_pos hlapsed]
      refine ⟨(ih h hrest).1, fun other => ?_⟩
      rw [(ih h hrest).2 other, List.find?_cons_of_neg (by simp [hlapsed])]
    · rw [if_neg hlapsed]
      have hplain := hrows row List.mem_cons_self (Bool.eq_false_iff.mpr hlapsed)
      have hnew : PlainRows (m.putNew (clampRow row now)) := by
        intro other hother
        rcases Table.mem_values_putNew hother with rfl | hold
        · exact hplain
        · exact h other hold
      refine ⟨(ih hnew hrest).1, fun other => ?_⟩
      rw [(ih hnew hrest).2 other, Table.index_putNew_of_apart (apart_of_plain h _),
        List.find?_cons]
      change Option.or (OrderedMap.get? (if m.index.has row.key then m.index
        else m.index.set row.key (clampRow row now)) other) _ = _
      by_cases hother : row.key = other
      · subst hother
        cases hfound : m.index.get? row.key with
        | none => simp [OrderedMap.has, hfound, hlapsed]
        | some old => simp [OrderedMap.has, hfound]
      · rw [decide_eq_false hother, Bool.and_false]
        split
        · rfl
        · rw [OrderedMap.get?_set_of_ne _ _ hother]

/-- **One operation** that records rows for plain keys does to the row of each key what it does
in a map by key. -/
theorem stepAffinity_spec (h : PlainRows m) (hop : ∀ key ∈ op.records, key.Plain) :
    PlainRows (stepAffinity m op) ∧
      ∀ key, (stepAffinity m op).index.get? key = rowAfter key (m.index.get? key) op := by
  cases op with
  | pin tier laneId reason ttlMs now =>
    exact remember_spec h ⟨.pin, tier, laneId⟩ reason _ now hop
  | demote tier laneId reason ttlMs now =>
    exact remember_spec h ⟨.demote, tier, laneId⟩ reason _ now hop
  | read key now => exact (recall_spec h key now).2
  | clear tier laneId => exact clear_spec h tier laneId
  | forget key now => exact forget_spec h key now
  | exportRows now => exact export_spec h now
  | restore rows now =>
    refine restore_spec h fun row hrow hlive => hop _ (List.mem_map_of_mem ?_)
    exact List.mem_filter.mpr ⟨hrow, by simp [hlive]⟩

/-- **A run** that records rows for plain keys holds the row of each key. -/
theorem memoryAfter_spec (hops : ∀ op ∈ ops, ∀ key ∈ op.records, key.Plain) :
    PlainRows (memoryAfter ops) ∧ ∀ key, (memoryAfter ops).index.get? key = rowOf key ops := by
  induction ops using List.reverseRecOn with
  | nil => exact ⟨fun row hmem => absurd hmem List.not_mem_nil, fun _ => rfl⟩
  | append_singleton ops op ih =>
    obtain ⟨hrows, hindex⟩ := ih fun op' hop' => hops op' (List.mem_append_left _ hop')
    unfold memoryAfter rowOf at *
    rw [List.foldl_append, List.foldl_cons, List.foldl_nil]
    obtain ⟨hrows', hindex'⟩ := stepAffinity_spec hrows (hops op (by simp))
    refine ⟨hrows', fun key => ?_⟩
    rw [hindex' key, hindex key, List.foldl_append, List.foldl_cons, List.foldl_nil]

/-! ## Reads -/

theorem recall_nan (m : LaneMemory) (key : LaneKey) :
    (recall_ m key .nan).2 = m.rows.get? (memoryKey key) := by
  unfold recall_
  cases m.rows.get? (memoryKey key) with
  | none => rfl
  | some row =>
    dsimp only
    rw [if_neg (by simp [LaneAffinityRow.isLapsed])]

theorem recall_eq_some_iff (hlive : row.isLapsed now = false) :
    (recall_ m key now).2 = some row ↔ m.rows.get? (memoryKey key) = some row := by
  unfold recall_
  cases m.rows.get? (memoryKey key) with
  | none => exact Iff.rfl
  | some found =>
    dsimp only
    by_cases hlapsed : found.isLapsed now = true
    · rw [if_pos hlapsed]
      refine ⟨fun h => (nomatch h), fun h => ?_⟩
      rw [Option.some.inj h, hlive] at hlapsed
      exact absurd hlapsed Bool.false_ne_true
    · rw [if_neg hlapsed]

theorem found_of_remember (m : LaneMemory) (key : LaneKey) (reason : Text) (ttlMs now : Number)
    {other : LaneKey} (h : other ∈ if key.laneId = [] then [] else [key]) :
    (remember m key reason ttlMs now).rows.get? (memoryKey other)
      = some (rowFor key reason ttlMs now) := by
  by_cases hempty : key.laneId = []
  · rw [if_pos hempty] at h
    cases h
  · rw [if_neg hempty] at h
    rw [List.mem_singleton.mp h, remember, if_neg hempty]
    exact OrderedMap.get?_set_self _ _ _

theorem found_of_records (h : key ∈ op.records) (m : LaneMemory) :
    ∃ row, (stepAffinity m op).rows.get? (memoryKey key) = some row := by
  cases op with
  | pin tier laneId reason ttlMs now =>
    exact ⟨_, found_of_remember m ⟨.pin, tier, laneId⟩ reason _ now h⟩
  | demote tier laneId reason ttlMs now =>
    exact ⟨_, found_of_remember m ⟨.demote, tier, laneId⟩ reason _ now h⟩
  | read | clear | forget | exportRows => cases h
  | restore rows now =>
    obtain ⟨row, hrow, rfl⟩ := List.mem_map.mp h
    change ∃ found, (restoreLaneAffinityRows m rows now).rows.get? (memoryKey row.key) = some found
    rw [← Option.isSome_iff_exists, restoreLaneAffinityRows_eq, Table.get?_foldl_putNew,
      Option.isSome_or, Bool.or_eq_true]
    refine .inr (List.find?_isSome.mpr ⟨clampRow row now, List.mem_map_of_mem hrow, ?_⟩)
    exact decide_eq_true rfl

/-! ## Restarts -/

/-- The memory after a restart: the rows that were exported, as far as they are admitted. -/
def restarted (m : LaneMemory) (saved now : Number) : LaneMemory :=
  restoreLaneAffinityRows .empty ((exportLaneAffinityRows m saved).2.filter isLaneAffinityRow) now

theorem mem_exported_iff {saved : Number} :
    row ∈ (exportLaneAffinityRows m saved).2 ↔
      row ∈ m.rows.values ∧ row.isLapsed saved = false := by
  unfold exportLaneAffinityRows
  rw [List.mem_mergeSort, Table.values_removeWhere, List.mem_filter, Bool.not_eq_true']

theorem get?_restarted_iff {saved : Number} (hmem : row ∈ m.rows.values)
    (hsaved : row.isLapsed saved = false) (hnow : row.isLapsed now = false) :
    (restarted m saved now).rows.get? (memoryKey row.key) = some row ↔
      isLaneAffinityRow row = true ∧ clampRow row now = row := by
  unfold restarted
  rw [restoreLaneAffinityRows_eq, Table.get?_foldl_putNew]
  change List.find? _ _ = _ ↔ _
  -- the only row of the memory that is found under the text is the row itself
  have honly : ∀ {other}, other ∈ (((exportLaneAffinityRows m saved).2.filter isLaneAffinityRow).filter
      fun row => !row.isLapsed now).map (clampRow · now) →
      memoryKey other.key = memoryKey row.key →
      other = clampRow row now ∧ isLaneAffinityRow row = true := by
    intro other hother hcode
    obtain ⟨stored, hstored, rfl⟩ := List.mem_map.mp hother
    obtain ⟨hexported, hadmitted⟩ := List.mem_filter.mp (List.mem_filter.mp hstored).1
    have heq := m.eq_of_code_eq (mem_exported_iff.mp hexported).1 hmem hcode
    rw [heq] at hadmitted ⊢
    exact ⟨rfl, hadmitted⟩
  constructor
  · intro hfound
    obtain ⟨hclamp, hadmitted⟩ := honly (List.mem_of_find?_eq_some hfound) rfl
    exact ⟨hadmitted, hclamp.symm⟩
  · rintro ⟨hadmitted, hclamp⟩
    have hthere : clampRow row now ∈ (((exportLaneAffinityRows m saved).2.filter
        isLaneAffinityRow).filter fun row => !row.isLapsed now).map (clampRow · now) := by
      refine List.mem_map_of_mem (List.mem_filter.mpr ⟨List.mem_filter.mpr ⟨?_, hadmitted⟩, ?_⟩)
      · exact mem_exported_iff.mpr ⟨hmem, hsaved⟩
      · rw [hnow]
        rfl
    rw [hclamp] at hthere
    obtain ⟨other, hfound⟩ := Option.isSome_iff_exists.mp <| List.find?_isSome
      (p := fun other => decide (memoryKey other.key = memoryKey row.key)) |>.mpr
      ⟨row, hthere, decide_eq_true rfl⟩
    have hcode := List.find?_some hfound
    rw [decide_eq_true_eq] at hcode
    obtain ⟨hother, -⟩ := honly (List.mem_of_find?_eq_some hfound) hcode
    rw [hfound, hother, hclamp]

theorem isFinite_of_admitted (h : isLaneAffinityRow row = true) : row.until_.isFinite = true := by
  simp only [isLaneAffinityRow, Bool.and_eq_true] at h
  exact h.1.2.1

theorem clampRow_eq_iff (h : isLaneAffinityRow row = true) :
    clampRow row now = row ↔ row.until_.le (now.add MAX_AFFINITY_MS) = true := by
  rw [← Number.min_eq_left_iff (isFinite_of_admitted h)]
  constructor
  · exact congrArg LaneAffinityRow.until_
  · intro heq
    unfold clampRow
    rw [heq]

/-! ## The ceiling -/

/-- The clock of an operation. -/
def AffinityOp.clock : AffinityOp → Option Number
  | .pin _ _ _ _ now | .demote _ _ _ _ now | .read _ now | .forget _ now | .exportRows now
  | .restore _ now => some now
  | .clear _ _ => none

theorem clampWindow_spec (ttlMs : Option Number) (kind : LaneAffinityKind) :
    (clampWindow ttlMs (defaultWindowFor kind)).isFinite = true ∧
      (clampWindow ttlMs (defaultWindowFor kind)).le MAX_AFFINITY_MS = true := by
  have hraw : ((ttlMs.filter Number.isFinite).getD (defaultWindowFor kind)).isFinite = true := by
    cases hfilter : ttlMs.filter Number.isFinite with
    | none => cases kind <;> rfl
    | some ttl => exact (Option.filter_eq_some_iff.mp hfilter).2
  have hmax := Number.isFinite_max (a := 0) rfl hraw
  refine ⟨Number.isFinite_min (a := MAX_AFFINITY_MS) rfl hmax, ?_⟩
  exact Number.min_le_left (by decide) fun hnan => by
    rw [hnan] at hmax
    cases hmax

theorem held_of_step (hclock : ∀ time ∈ op.clock, time.le now = true)
    (h : row ∈ (stepAffinity m op).rows.values) (hfinite : row.until_.isFinite = true) :
    row ∈ m.rows.values ∨ row.until_.le (now.add MAX_AFFINITY_MS) = true := by
  have hremember : ∀ {key reason ttlMs kind time},
      row ∈ (remember m key reason (clampWindow ttlMs (defaultWindowFor kind)) time).rows.values →
      time.le now = true →
      row ∈ m.rows.values ∨ row.until_.le (now.add MAX_AFFINITY_MS) = true := by
    intro key reason ttlMs kind time hmem htime
    unfold remember at hmem
    split at hmem
    · exact .inl hmem
    · rcases Table.mem_values_put hmem with rfl | hold
      · obtain ⟨hwindow, hceiling⟩ := clampWindow_spec ttlMs kind
        exact .inr (Number.add_le_add htime hwindow rfl hceiling)
      · exact .inl hold
  cases op with
  | pin | demote => exact hremember h (hclock _ rfl)
  | read key time =>
    change row ∈ (recall_ m key time).1.rows.values at h
    unfold recall_ at h
    split at h
    · exact .inl h
    · split at h
      · exact .inl (Table.mem_values_delete_iff.mp h).1
      · exact .inl h
  | clear tier laneId =>
    exact .inl (Table.mem_values_delete_iff.mp (Table.mem_values_delete_iff.mp h).1).1
  | forget key time =>
    change row ∈ (forgetLaneMemory m key time).1.rows.values at h
    unfold forgetLaneMemory at h
    split at h
    · exact .inl h
    · exact .inl (Table.mem_values_delete_iff.mp h).1
  | exportRows time =>
    change row ∈ (m.removeWhere fun row => row.isLapsed time).rows.values at h
    rw [Table.values_removeWhere] at h
    exact .inl (List.mem_filter.mp h).1
  | restore rows time =>
    change row ∈ (restoreLaneAffinityRows m rows time).rows.values at h
    rw [restoreLaneAffinityRows_eq] at h
    rcases Table.mem_foldl_putNew h with hold | hnew
    · exact .inl hold
    · obtain ⟨stored, -, rfl⟩ := List.mem_map.mp hnew
      have htime := hclock time rfl
      have hceiling : (time.add MAX_AFFINITY_MS).le (now.add MAX_AFFINITY_MS) = true :=
        Number.add_le_add htime rfl rfl (by decide +kernel)
      refine .inr (Number.le_trans ?_ hceiling)
      obtain ⟨huntil, hend⟩ := Number.ne_nan_of_isFinite_min hfinite
      exact Number.min_le_right huntil hend

/-- **No row is held beyond the ceiling** on a clock that has not passed `now`. -/
theorem held_within_ceiling (hclock : ∀ op ∈ ops, ∀ time ∈ op.clock, time.le now = true)
    (hmem : row ∈ (memoryAfter ops).rows.values) (hfinite : row.until_.isFinite = true) :
    row.until_.le (now.add MAX_AFFINITY_MS) = true := by
  induction ops using List.reverseRecOn with
  | nil => cases hmem
  | append_singleton ops op ih =>
    unfold memoryAfter at hmem ih
    rw [List.foldl_append, List.foldl_cons] at hmem
    rcases held_of_step (hclock op (by simp)) hmem hfinite with hold | hheld
    · exact ih (fun op' hop' => hclock op' (List.mem_append_left _ hop')) hold
    · exact hheld

theorem held_within_ceiling_pin :
    ∃ row ∈ (memoryAfter [.pin none (text "b") (text "answered") none 0]).rows.values,
      row.until_.le (Number.add 0 MAX_AFFINITY_MS) = true := by
  have hrow : ⟨none, text "b", .pin, 900000, text "answered"⟩
      ∈ (memoryAfter [.pin none (text "b") (text "answered") none 0]).rows.values := by
    decide +kernel
  have hclock : Number.le 0 0 = true := by decide +kernel
  exact ⟨_, hrow, held_within_ceiling (by simpa [AffinityOp.clock] using hclock) hrow rfl⟩

/-- **The lane memory** reads as a map by tier, lane and kind in every state of a run exactly where
each row is recorded for a stated tier that is not empty, with no colon in tier or lane. After a
restart a row whose time has not come is read exactly where it is admitted from a file and not
held for longer than the ceiling. -/
theorem lane_affinity_map_iff (ops : List AffinityOp) :
    ((∀ pre, pre <+: ops → ∀ key now, (recall_ (memoryAfter pre) key now).2
        = (rowOf key pre).filter fun row => !row.isLapsed now) ↔
      ∀ op ∈ ops, ∀ key ∈ op.records, key.Plain) ∧
    ∀ saved now, ∀ row ∈ (memoryAfter ops).rows.values,
      row.isLapsed saved = false → row.isLapsed now = false →
      ((recall_ (restarted (memoryAfter ops) saved now) row.key now).2 = some row ↔
        isLaneAffinityRow row = true ∧ row.until_.le (now.add MAX_AFFINITY_MS) = true) := by
  refine ⟨⟨fun hreads op hop key hkey => (plain_iff key).mpr fun other hcode => ?_,
    fun hplain pre hpre key now => ?_⟩, fun saved now row hmem hsaved hnow => ?_⟩
  · -- both keys lead to one row, which is about one of them
    obtain ⟨pre, post, rfl⟩ := List.append_of_mem hop
    have hpre : pre ++ [op] <+: pre ++ op :: post := ⟨post, by simp⟩
    obtain ⟨row, hrow⟩ := found_of_records hkey (memoryAfter pre)
    have hafter : memoryAfter (pre ++ [op]) = stepAffinity (memoryAfter pre) op := by
      unfold memoryAfter
      rw [List.foldl_append, List.foldl_cons, List.foldl_nil]
    have hread : ∀ key', memoryKey key' = memoryKey key → row.key = key' := by
      intro key' hsame
      have hspec := hreads (pre ++ [op]) hpre key' .nan
      rw [recall_nan, hafter, hsame, hrow] at hspec
      exact key_of_rowOf row (Option.filter_eq_some_iff.mp hspec.symm).1
    rw [← hread other hcode, hread key rfl]
  · obtain ⟨hrows, hindex⟩ := memoryAfter_spec fun op hop => hplain op (hpre.subset hop)
    rw [(recall_spec hrows key now).1, hindex]
  · rw [recall_eq_some_iff hnow, get?_restarted_iff hmem hsaved hnow]
    exact and_congr_right clampRow_eq_iff

/-- The pins of two lanes of two tiers share a text: the second takes the place of the first. -/
theorem lane_pins_collide :
    let ops := [AffinityOp.pin (some (text "a")) (text "b:c") (text "answered") none 0,
      .pin (some (text "a:b")) (text "c") (text "answered") none 0]
    let key : LaneKey := ⟨.pin, some (text "a"), text "b:c"⟩
    (recall_ (memoryAfter ops) key 1).2
        = some ⟨some (text "a:b"), text "c", .pin, 900000, text "answered"⟩ ∧
      rowOf key ops = some ⟨some (text "a"), text "b:c", .pin, 900000, text "answered"⟩ := by
  decide +kernel

end LlmRelay.Dispatch
