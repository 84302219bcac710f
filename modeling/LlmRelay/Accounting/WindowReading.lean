import LlmRelay.Accounting.StoreRuns
import Mathlib.Algebra.BigOperators.Group.List.Basic

/-!
# What the usage window reads

Over a day whose rows have counted their requests, the usage window counts the requests of
the credential; its token figure is the sum over them where they agree on what they report.

## Main definitions

* `windowRequests`: the requests that a window is about;
* `windowUsage`: the token figure of a list of requests;
* `TokensUniform`: the requests agree on which token facts are known.

## Main results

* `perm_flatten_groups`: grouping by distinct keys loses and repeats nothing;
* `requests_usedInWindow`, `tokens_usedInWindow`: the two figures over a day;
* `usedInWindow_sound`: the figures in every run in which the requests are counted.
-/

namespace LlmRelay.Accounting

open Ecma

/-! ## Groups -/

section Groups

variable {α κ : Type*} [DecidableEq κ]

theorem perm_filter_append_filter (p q : α → Bool) {l : List α}
    (h : ∀ a ∈ l, ¬(p a = true ∧ q a = true)) :
    (l.filter p ++ l.filter q).Perm (l.filter fun a => p a || q a) := by
  induction l with
  | nil => exact .refl _
  | cons a rest ih =>
    have hrest := ih fun b hb => h b (List.mem_cons_of_mem _ hb)
    have ha := h a List.mem_cons_self
    cases hp : p a <;> cases hq : q a <;> simp only [List.filter_cons, hp, hq]
    · exact hrest
    · exact List.perm_middle.trans (hrest.cons a)
    · exact hrest.cons a
    · exact absurd ⟨hp, hq⟩ ha

/-- The groups of distinct keys are together what has one of the keys. -/
theorem perm_flatten_groups (key : α → κ) (l : List α) {keys : List κ} (h : keys.Nodup) :
    ((keys.map fun k => l.filter fun a => decide (key a = k)).flatten).Perm
      (l.filter fun a => keys.any fun k => decide (key a = k)) := by
  induction keys with
  | nil => simp
  | cons k rest ih =>
    rw [List.nodup_cons] at h
    refine ((ih h.2).append_left _).trans ?_
    refine (perm_filter_append_filter _ _ ?_).trans (List.Perm.of_eq ?_)
    · rintro a - ⟨hk, hrest⟩
      obtain ⟨k', hk', heq⟩ := List.any_eq_true.mp hrest
      rw [decide_eq_true_eq] at hk heq
      exact h.1 (hk.symm.trans heq ▸ hk')
    · exact List.filter_congr fun a _ => rfl

end Groups

/-! ## Facts that agree -/

/-- All of the facts are known, or none is. -/
def Uniform (facts : List (Option Nat)) : Prop :=
  (∀ fact ∈ facts, fact.isSome = true) ∨ ∀ fact ∈ facts, fact = none

/-- Whether some fact is known. -/
def someKnown (facts : List (Option Nat)) : Bool :=
  facts.any Option.isSome

variable {facts : List (Option Nat)}

theorem Uniform.subset {facts' : List (Option Nat)} (h : Uniform facts)
    (hsub : ∀ fact ∈ facts', fact ∈ facts) : Uniform facts' :=
  h.imp (fun h fact hin => h fact (hsub fact hin)) fun h fact hin => h fact (hsub fact hin)

theorem factSum_eq_zero (h : ∀ fact ∈ facts, fact = none) : factSum facts = 0 := by
  induction facts with
  | nil => rfl
  | cons fact rest ih =>
    have hrest := ih fun fact hin => h fact (List.mem_cons_of_mem _ hin)
    unfold factSum at hrest ⊢
    rw [List.map_cons, List.sum_cons, hrest, h fact List.mem_cons_self, Option.getD_none]

theorem noteUsageCell_eq {cell : TokenCell} (h : CellRepresents cell facts)
    (huniform : Uniform facts) {side : UsageSide} (hexact : side.exact_ = true)
    (hle : side.value + factSum facts ≤ 2 ^ 53) :
    noteUsageCell side cell
      = ({ seen := side.seen || someKnown facts
           exact_ := true
           value := side.value + factSum facts }, someKnown facts) := by
  unfold noteUsageCell
  by_cases hknown : cell.known = 0
  · -- nothing is known: either there are no facts, or all are unknown
    rw [if_pos hknown]
    rw [h.known, List.countP_eq_zero] at hknown
    have hnone : ∀ fact ∈ facts, fact = none := fun fact hin =>
      by simpa using hknown fact hin
    have hsome : someKnown facts = false := by
      simpa [someKnown] using hnone
    rw [hsome, factSum_eq_zero hnone]
    cases side
    simp_all
  · rw [if_neg hknown]
    have hpos : 0 < facts.countP Option.isSome := by
      rw [← h.known]
      exact Nat.pos_of_ne_zero hknown
    obtain ⟨fact, hin, hfact⟩ := List.countP_pos_iff.mp hpos
    have hall : ∀ fact ∈ facts, fact.isSome = true := by
      refine huniform.resolve_right fun hnone => ?_
      rw [hnone fact hin] at hfact
      cases hfact
    have hnone : facts.countP Option.isNone = 0 := by
      rw [List.countP_eq_zero]
      intro fact hin
      simpa [Option.isSome_iff_ne_none] using hall fact hin
    have huncertain : cell.uncertain = false := by
      rw [← Bool.not_eq_true, h.uncertain_iff, hnone]
      exact lt_irrefl 0
    have hsome : someKnown facts = true := List.any_eq_true.mpr ⟨fact, hin, hfact⟩
    rw [huncertain, h.value hnone (List.ne_nil_of_mem hin)]
    dsimp only
    rw [hsome, Bool.or_true, plus_of_le hle, hexact]

theorem noteUsageTokens_eq {input output : TokenCell} {inputs outputs : List (Option Nat)}
    (hinput : CellRepresents input inputs) (houtput : CellRepresents output outputs)
    (huniform : Uniform inputs ∧ Uniform outputs) {side : UsageSide} (hexact : side.exact_ = true)
    (hle : side.value + (factSum inputs + factSum outputs) ≤ 2 ^ 53) :
    noteUsageTokens side input output
      = ({ seen := side.seen || (someKnown inputs || someKnown outputs)
           exact_ := true
           value := side.value + (factSum inputs + factSum outputs) },
          someKnown inputs || someKnown outputs) := by
  unfold noteUsageTokens
  rw [noteUsageCell_eq hinput huniform.1 hexact (by omega)]
  dsimp only
  rw [noteUsageCell_eq houtput huniform.2 rfl (by dsimp only; omega)]
  rw [Bool.or_assoc, Nat.add_assoc]

/-! ## The loop over the rows -/

@[simp] theorem factSum_append (facts facts' : List (Option Nat)) :
    factSum (facts ++ facts') = factSum facts + factSum facts' := by
  simp [factSum]

@[simp] theorem someKnown_append (facts facts' : List (Option Nat)) :
    someKnown (facts ++ facts') = (someKnown facts || someKnown facts') := by
  simp [someKnown]

theorem foldl_noteUsageTokens {ρ β : Type*} (input output : ρ → TokenCell)
    (inputFact outputFact : β → Option Nat) {rows : List ρ} {groups : List (List β)}
    (h : List.Forall₂ (fun row group => CellRepresents (input row) (group.map inputFact)
      ∧ CellRepresents (output row) (group.map outputFact)) rows groups)
    (side : UsageSide) (hexact : side.exact_ = true)
    (huniform : Uniform (groups.flatten.map inputFact)
      ∧ Uniform (groups.flatten.map outputFact))
    (hle : side.value + (factSum (groups.flatten.map inputFact)
      + factSum (groups.flatten.map outputFact)) ≤ 2 ^ 53) :
    rows.foldl (fun side row => (noteUsageTokens side (input row) (output row)).1) side
      = { seen := side.seen || (someKnown (groups.flatten.map inputFact)
            || someKnown (groups.flatten.map outputFact))
          exact_ := true
          value := side.value + (factSum (groups.flatten.map inputFact)
            + factSum (groups.flatten.map outputFact)) } := by
  induction h generalizing side with
  | nil =>
    cases side
    simp_all [someKnown, factSum]
  | @cons row group rows groups hrow _ ih =>
    simp only [List.flatten_cons, List.map_append] at huniform hle ⊢
    simp only [factSum_append, someKnown_append] at hle ⊢
    have hgroup : Uniform (group.map inputFact) ∧ Uniform (group.map outputFact) :=
      ⟨huniform.1.subset fun _ => List.mem_append_left _,
        huniform.2.subset fun _ => List.mem_append_left _⟩
    have hrest : Uniform (groups.flatten.map inputFact)
        ∧ Uniform (groups.flatten.map outputFact) :=
      ⟨huniform.1.subset fun _ => List.mem_append_right _,
        huniform.2.subset fun _ => List.mem_append_right _⟩
    rw [List.foldl_cons, noteUsageTokens_eq hrow.1 hrow.2 hgroup hexact (by omega)]
    rw [ih _ rfl hrest (by dsimp only; omega)]
    simp only [UsageSide.mk.injEq, true_and]
    refine ⟨?_, by omega⟩
    cases side.seen <;> cases someKnown (group.map inputFact) <;>
      cases someKnown (group.map outputFact) <;> simp

section Rows

variable {options : UsedInWindowOptions} {rows : List (RowKey × MutableAggregate)}

/-- The rows are all asked for. -/
def Selected (options : UsedInWindowOptions) (rows : List (RowKey × MutableAggregate)) : Prop :=
  ∀ row ∈ rows, options.selects row.1 = true

theorem foldl_noteRow_side (h : Selected options rows) {read : WindowTally → UsageSide}
    (note : UsageSide → RowKey × MutableAggregate → UsageSide)
    (hnote : ∀ tally row, options.selects row.1 = true →
      read (noteRow options tally row) = note (read tally) row) (tally : WindowTally) :
    read (rows.foldl (noteRow options) tally) = rows.foldl note (read tally) := by
  induction rows generalizing tally with
  | nil => rfl
  | cons row rest ih =>
    rw [List.foldl_cons, List.foldl_cons, ih fun row hin => h row (List.mem_cons_of_mem _ hin),
      hnote _ _ (h row List.mem_cons_self)]

theorem foldl_noteRow_total (h : Selected options rows) {groups : List (List AppliedRequest)}
    (hgroups : List.Forall₂ (fun row group => RowRepresents row.2 group) rows groups)
    {tally : WindowTally} (hle : tally.total + groups.flatten.length ≤ maxSafeInteger) :
    (rows.foldl (noteRow options) tally).total = tally.total + groups.flatten.length := by
  induction hgroups generalizing tally with
  | nil => rfl
  | @cons row group rows groups hrow _ ih =>
    rw [List.flatten_cons, List.length_append] at hle ⊢
    have hcount : row.2 (.counter .requests) = group.length := hrow.count
    have hsafe : windowCounter (row.2 (.counter .requests)) = group.length := by
      rw [hcount, windowCounter, if_pos]
      rw [isSafeNat, decide_eq_true_eq]
      omega
    have hround : tally.total + group.length ≤ 2 ^ 53 := by
      unfold maxSafeInteger at hle
      omega
    have htotal : (noteRow options tally row).total = tally.total + group.length := by
      rw [noteRow, if_pos (h row List.mem_cons_self), hsafe, plus_of_le hround]
    rw [List.foldl_cons, ih (fun row hin => h row (List.mem_cons_of_mem _ hin))
      (by rw [htotal]; omega), htotal, Nat.add_assoc]

theorem noteUsageTokens_measured (side : UsageSide) (input output : TokenCell) :
    (noteUsageTokens side input output).2
      = (decide (input.known ≠ 0) || decide (output.known ≠ 0)) := by
  have hcell : ∀ side cell, (noteUsageCell side cell).2 = decide (cell.known ≠ 0) := by
    intro side cell
    unfold noteUsageCell
    by_cases h : cell.known = 0
    · simp [h]
    · cases cell.uncertain <;> cases cell.value <;> simp [h]
  rw [noteUsageTokens, hcell, hcell]

theorem foldl_noteRow_estimatedOnly (h : Selected options rows) (hrows : ∀ row ∈ rows,
      (row.2 (.reported .requestTokens .reportedInput)).known ≠ 0
        ∨ (row.2 (.reported .requestTokens .reportedOutput)).known ≠ 0
        ∨ (row.2 (.estimated .requestTokens .estimatedInput)).known = 0
          ∧ (row.2 (.estimated .requestTokens .estimatedOutput)).known = 0)
    (tally : WindowTally) :
    (rows.foldl (noteRow options) tally).estimatedOnlyRequest = tally.estimatedOnlyRequest := by
  induction rows generalizing tally with
  | nil => rfl
  | cons row rest ih =>
    rw [List.foldl_cons, ih (fun row hin => h row (List.mem_cons_of_mem _ hin))
      (fun row hin => hrows row (List.mem_cons_of_mem _ hin)), noteRow,
      if_pos (h row List.mem_cons_self)]
    dsimp only
    rw [noteUsageTokens_measured, noteUsageTokens_measured]
    rcases hrows row List.mem_cons_self with hin | hout | ⟨hin, hout⟩
    · simp [hin]
    · simp [hout]
    · simp [hin, hout]

end Rows

/-! ## The rows of a window -/

/-- Whether a minute is in the period. -/
def UsedInWindowOptions.inPeriod (options : UsedInWindowOptions) (minute : Text) : Bool :=
  if options.period = .minute then decide (minute = options.minute)
  else decide (minute ≤ options.minute)

/-- The requests that the window is about. -/
def windowRequests (options : UsedInWindowOptions) (requests : List AppliedRequest) :
    List AppliedRequest :=
  requests.filter fun request => options.inPeriod request.minute && options.selects request.row

/-- The rows that are summed, with their minutes. -/
def windowRows (options : UsedInWindowOptions) (day : MutableDay) :
    List ((Text × RowKey) × MutableAggregate) :=
  (options.minuteKeys day).flatMap fun minute =>
    ((day.rowsAt minute).filter fun row => options.selects row.1).map fun row =>
      ((minute, row.1), row.2)

theorem foldl_noteRow_filter (options : UsedInWindowOptions)
    (rows : List (RowKey × MutableAggregate)) (tally : WindowTally) :
    (rows.filter fun row => options.selects row.1).foldl (noteRow options) tally
      = rows.foldl (noteRow options) tally := by
  induction rows generalizing tally with
  | nil => rfl
  | cons row rest ih =>
    by_cases h : options.selects row.1 = true
    · rw [List.filter_cons, if_pos h, List.foldl_cons, List.foldl_cons, ih]
    · rw [List.filter_cons, if_neg h, List.foldl_cons, ih, noteRow, if_neg h]

theorem foldl_windowRows (options : UsedInWindowOptions) (day : MutableDay) (tally : WindowTally) :
    (options.minuteKeys day).foldl (fun tally cellMinute =>
        (day.rowsAt cellMinute).foldl (noteRow options) tally) tally
      = ((windowRows options day).map fun row => (row.1.2, row.2)).foldl (noteRow options)
          tally := by
  unfold windowRows
  induction options.minuteKeys day generalizing tally with
  | nil => rfl
  | cons minute rest ih =>
    rw [List.foldl_cons, List.flatMap_cons, List.map_append, List.foldl_append, List.map_map, ih]
    congr 1
    rw [← foldl_noteRow_filter]
    congr 1
    exact (List.map_id _).symm

variable {row : MutableAggregate} {key : RowKey} {minute : Text}

theorem mem_windowRows {options : UsedInWindowOptions} {day : MutableDay}
    :
    ((minute, key), row) ∈ windowRows options day
      ↔ minute ∈ options.minuteKeys day ∧ (key, row) ∈ day.rowsAt minute
        ∧ options.selects key = true := by
  simp only [windowRows, List.mem_flatMap, List.mem_map, List.mem_filter, Prod.mk.injEq]
  constructor
  · rintro ⟨minute', hminute, ⟨key', row'⟩, ⟨hrow, hkey⟩, ⟨rfl, rfl⟩, rfl⟩
    exact ⟨hminute, hrow, hkey⟩
  · rintro ⟨hminute, hrow, hkey⟩
    exact ⟨minute, hminute, (key, row), ⟨hrow, hkey⟩, ⟨rfl, rfl⟩, rfl⟩

theorem mem_rowsAt {day : MutableDay}
    (h : (key, row) ∈ day.rowsAt minute) : day.rowOf minute key = row := by
  unfold MutableDay.rowsAt at h
  unfold MutableDay.rowOf cellFor
  cases hcell : day.cells.get? minute with
  | none =>
    rw [hcell] at h
    cases h
  | some cell =>
    rw [hcell] at h
    have hget := (OrderedMap.mem_entries_iff cell.rows).mp h
    funext field
    simp [MutableCell.rowOf, MutableCell.aggregates, hget]

theorem nodup_windowKeys (options : UsedInWindowOptions) (day : MutableDay) :
    ((windowRows options day).map Prod.fst).Nodup := by
  have hminutes : (options.minuteKeys day).Nodup := by
    unfold UsedInWindowOptions.minuteKeys
    split
    · exact List.nodup_singleton _
    · exact day.cells.nodup.filter _
  have hrows : ∀ minute, ((day.rowsAt minute).map Prod.fst).Nodup := by
    intro minute
    unfold MutableDay.rowsAt
    cases day.cells.get? minute with
    | none => exact List.nodup_nil
    | some cell => exact cell.rows.nodup
  unfold windowRows
  rw [List.map_flatMap]
  refine List.nodup_flatMap.mpr ⟨fun minute _ => ?_, ?_⟩
  · rw [List.map_map]
    have hinj : (Prod.fst ∘ fun row : RowKey × MutableAggregate => ((minute, row.1), row.2))
        = (fun key => (minute, key)) ∘ Prod.fst := rfl
    rw [hinj, ← List.map_map]
    exact ((hrows minute).sublist (List.filter_sublist.map _)).map fun a b hab =>
      (Prod.ext_iff.mp hab).2
  · refine hminutes.imp fun {a b} hab => ?_
    -- rows of different minutes have different keys
    intro x hx hy
    simp only [List.mem_map] at hx hy
    obtain ⟨_, ⟨_, _, rfl⟩, rfl⟩ := hx
    obtain ⟨_, ⟨_, _, rfl⟩, hb⟩ := hy
    exact hab (congrArg Prod.fst hb).symm

section Day

variable {options : UsedInWindowOptions} {day : MutableDay} {requests : List AppliedRequest}

/-- The groups of requests that the rows have counted. -/
def windowGroups (options : UsedInWindowOptions) (day : MutableDay)
    (requests : List AppliedRequest) : List (List AppliedRequest) :=
  (windowRows options day).map fun row => requestsOf row.1.1 row.1.2 requests

theorem selected_windowRows (options : UsedInWindowOptions) (day : MutableDay) :
    Selected options ((windowRows options day).map fun row => (row.1.2, row.2)) := by
  intro row hrow
  obtain ⟨⟨⟨minute, key⟩, aggregate⟩, hin, rfl⟩ := List.mem_map.mp hrow
  exact (mem_windowRows.mp hin).2.2

theorem kind_of_selects (h : options.selects key = true) : key.kind = .request := by
  unfold UsedInWindowOptions.selects at h
  simp only [Bool.and_eq_true, decide_eq_true_eq] at h
  exact h.1.1

variable (options) in
theorem forall₂_windowGroups (h : DayRepresents day requests) :
    List.Forall₂ (fun row group => RowRepresents row.2 group)
      ((windowRows options day).map fun row => (row.1.2, row.2))
      (windowGroups options day requests) := by
  rw [windowGroups, List.forall₂_map_left_iff, List.forall₂_map_right_iff]
  refine List.forall₂_same.mpr ?_
  rintro ⟨⟨minute, key⟩, row⟩ hin
  obtain ⟨-, hrow, hkey⟩ := mem_windowRows.mp hin
  rw [← mem_rowsAt hrow]
  exact h minute key (kind_of_selects hkey)

theorem mem_windowKeys_iff (h : DayRepresents day requests) {request : AppliedRequest}
    (hin : request ∈ requests) :
    (request.minute, request.row) ∈ (windowRows options day).map Prod.fst
      ↔ (options.inPeriod request.minute && options.selects request.row) = true := by
  rw [Bool.and_eq_true, List.mem_map]
  constructor
  · rintro ⟨⟨⟨minute, key⟩, row⟩, hrow, heq⟩
    obtain ⟨rfl, rfl⟩ := Prod.mk.inj heq
    obtain ⟨hminute, -, hkey⟩ := mem_windowRows.mp hrow
    refine ⟨?_, hkey⟩
    unfold UsedInWindowOptions.minuteKeys at hminute
    unfold UsedInWindowOptions.inPeriod
    split at hminute
    · rename_i hm
      rw [if_pos hm]
      simpa using hminute
    · rename_i hm
      rw [if_neg hm]
      simpa using (List.mem_filter.mp hminute).2
  · rintro ⟨hminute, hkey⟩
    -- the row has counted the request, so it is there
    have hrep := h request.minute request.row (kind_of_selects hkey)
    have hpos : 0 < (requestsOf request.minute request.row requests).length := by
      refine List.length_pos_of_mem (a := request) ?_
      exact List.mem_filter.mpr ⟨hin, by simp⟩
    have hcount := hrep.count
    cases hcell : day.cells.get? request.minute with
    | none =>
      have hzero : day.rowOf request.minute request.row (.counter .requests) = (0 : Nat) := by
        unfold MutableDay.rowOf cellFor
        rw [hcell]
        rfl
      exact absurd (hcount.symm.trans hzero) hpos.ne'
    | some cell =>
      cases hrow : cell.rows.get? request.row with
      | none =>
        have hzero : day.rowOf request.minute request.row (.counter .requests)
            = (0 : Nat) := by
          unfold MutableDay.rowOf cellFor
          rw [hcell]
          simp [MutableCell.rowOf, MutableCell.aggregates, hrow, emptyAggregate]
        exact absurd (hcount.symm.trans hzero) hpos.ne'
      | some row =>
        refine ⟨((request.minute, request.row), row), mem_windowRows.mpr ⟨?_, ?_, hkey⟩, rfl⟩
        · unfold UsedInWindowOptions.inPeriod at hminute
          unfold UsedInWindowOptions.minuteKeys
          split at hminute
          · rename_i hm
            rw [if_pos hm]
            simpa using hminute
          · rename_i hm
            rw [if_neg hm]
            refine List.mem_filter.mpr ⟨?_, hminute⟩
            exact List.mem_map.mpr ⟨(request.minute, cell),
              (OrderedMap.mem_entries_iff day.cells).mpr hcell, rfl⟩
        · unfold MutableDay.rowsAt
          rw [hcell]
          exact (OrderedMap.mem_entries_iff cell.rows).mpr hrow

variable (options) in
theorem perm_windowGroups (h : DayRepresents day requests) :
    (windowGroups options day requests).flatten.Perm (windowRequests options requests) := by
  have hgroups : windowGroups options day requests
      = ((windowRows options day).map Prod.fst).map fun place =>
          requests.filter fun request => decide ((request.minute, request.row) = place) := by
    rw [windowGroups, List.map_map]
    refine List.map_congr_left fun row _ => ?_
    unfold requestsOf
    refine List.filter_congr fun request _ => ?_
    simp [Prod.ext_iff]
  rw [hgroups]
  refine (perm_flatten_groups (fun request : AppliedRequest => (request.minute, request.row))
    requests (nodup_windowKeys options day)).trans (List.Perm.of_eq ?_)
  refine List.filter_congr fun request hin => ?_
  rw [Bool.eq_iff_iff, ← mem_windowKeys_iff h hin, List.any_eq_true]
  simp only [decide_eq_true_eq, exists_eq_right']

end Day

/-! ## The figures of a day -/

def reportedKnown (requests : List AppliedRequest) : Bool :=
  someKnown (reportedFacts .reportedInput requests)
    || someKnown (reportedFacts .reportedOutput requests)

def reportedTotal (requests : List AppliedRequest) : Nat :=
  factSum (reportedFacts .reportedInput requests)
    + factSum (reportedFacts .reportedOutput requests)

def estimatedKnown (requests : List AppliedRequest) : Bool :=
  someKnown (estimatedFacts .estimatedInput requests)
    || someKnown (estimatedFacts .estimatedOutput requests)

def estimatedTotal (requests : List AppliedRequest) : Nat :=
  factSum (estimatedFacts .estimatedInput requests)
    + factSum (estimatedFacts .estimatedOutput requests)

/-- The token figure of a list of requests: the sum of what was reported, or else of what was
estimated. It knows nothing of minutes and rows. -/
def windowUsage (requests : List AppliedRequest) : Option Nat × Option UsageBasis :=
  if reportedKnown requests then (some (reportedTotal requests), some .reported)
  else if estimatedKnown requests then (some (estimatedTotal requests), some .estimated)
  else (none, none)

/-- The requests agree on which reported facts are known and, where none is, on which estimated
ones, and the sum is a number that is represented exactly. -/
structure TokensUniform (requests : List AppliedRequest) : Prop where
  reportedInput : Uniform (reportedFacts .reportedInput requests)
  reportedOutput : Uniform (reportedFacts .reportedOutput requests)
  reportedFits : reportedTotal requests ≤ 2 ^ 53
  estimated : reportedKnown requests = false →
    Uniform (estimatedFacts .estimatedInput requests)
      ∧ Uniform (estimatedFacts .estimatedOutput requests)
      ∧ estimatedTotal requests ≤ 2 ^ 53

variable {facts facts' : List (Option Nat)}

theorem factSum_perm (h : facts.Perm facts') : factSum facts = factSum facts' :=
  (h.map _).sum_eq

theorem someKnown_perm (h : facts.Perm facts') : someKnown facts = someKnown facts' :=
  h.any_eq

theorem Uniform.perm (h : Uniform facts) (hperm : facts.Perm facts') : Uniform facts' :=
  h.subset fun _ hin => hperm.mem_iff.mpr hin

theorem Uniform.isSome_of_someKnown (h : Uniform facts) (hknown : someKnown facts = true) :
    ∀ fact ∈ facts, fact.isSome = true := by
  refine h.resolve_right fun hnone => ?_
  obtain ⟨fact, hin, hfact⟩ := List.any_eq_true.mp hknown
  rw [hnone fact hin] at hfact
  cases hfact

theorem known_ne_zero_of_isSome {cell : TokenCell} (h : CellRepresents cell facts)
    (hne : facts ≠ []) (hall : ∀ fact ∈ facts, fact.isSome = true) : cell.known ≠ 0 := by
  obtain ⟨fact, hin⟩ := List.exists_mem_of_ne_nil facts hne
  rw [h.known]
  exact (List.countP_pos_iff.mpr ⟨fact, hin, hall fact hin⟩).ne'

section Figures

variable {options : UsedInWindowOptions} {day : MutableDay} {requests : List AppliedRequest}

/-- The tally of the day's rows. -/
def windowTally (options : UsedInWindowOptions) (day : MutableDay) : WindowTally :=
  ((windowRows options day).map fun row => (row.1.2, row.2)).foldl (noteRow options)
    newWindowTally

theorem usedInWindow_eq (hperiod : options.period ≠ .month) :
    usedInWindow options (some day)
      = usageReading
          (if (windowTally options day).total > 0 then some (windowTally options day).total
            else none)
          (windowTally options day).reported (windowTally options day).estimated
          (windowTally options day).estimatedOnlyRequest := by
  simp only [usedInWindow, if_neg hperiod, foldl_windowRows]
  rfl

theorem requests_usageReading (count : Option Nat) (reported estimated : UsageSide)
    (only : Bool) : (usageReading count reported estimated only).requests = count := by
  unfold usageReading
  dsimp only
  split
  · rfl
  · split
    · rfl
    · split <;> rfl

variable (h : DayRepresents day requests)

include h

/-- The requests of the window are counted. -/
theorem requests_usedInWindow (hperiod : options.period ≠ .month)
    (hle : (windowRequests options requests).length ≤ maxSafeInteger) :
    (usedInWindow options (some day)).requests
      = if (windowRequests options requests).length > 0 then
          some (windowRequests options requests).length
        else none := by
  have hlength := (perm_windowGroups options h).length_eq
  have htotal : (windowTally options day).total = (windowRequests options requests).length := by
    unfold windowTally
    rw [foldl_noteRow_total (selected_windowRows options day) (forall₂_windowGroups options h),
      hlength]
    · exact Nat.zero_add _
    · rw [hlength]
      exact (Nat.zero_add _).trans_le hle
  rw [usedInWindow_eq hperiod, requests_usageReading, htotal]

/-- One side of the tally, whose cells stand for the facts of the requests of their rows. -/
theorem side_windowTally (read : WindowTally → UsageSide)
    {input output : MutableAggregate → TokenCell} {inputFact outputFact : AppliedRequest → Option Nat}
    (hnote : ∀ tally row, options.selects row.1 = true → read (noteRow options tally row)
      = (noteUsageTokens (read tally) (input row.2) (output row.2)).1)
    (hnew : read newWindowTally = newUsageSide)
    (hcells : ∀ {row group}, RowRepresents row group → CellRepresents (input row) (group.map inputFact)
      ∧ CellRepresents (output row) (group.map outputFact))
    (hin : Uniform ((windowRequests options requests).map inputFact))
    (hout : Uniform ((windowRequests options requests).map outputFact))
    (hfits : factSum ((windowRequests options requests).map inputFact)
      + factSum ((windowRequests options requests).map outputFact) ≤ 2 ^ 53) :
    read (windowTally options day)
      = { seen := someKnown ((windowRequests options requests).map inputFact)
            || someKnown ((windowRequests options requests).map outputFact)
          exact_ := true
          value := factSum ((windowRequests options requests).map inputFact)
            + factSum ((windowRequests options requests).map outputFact) } := by
  have hperm := perm_windowGroups options h
  have hinput := hperm.map inputFact
  have houtput := hperm.map outputFact
  have hfold := foldl_noteUsageTokens (fun row : RowKey × MutableAggregate => input row.2)
    (fun row => output row.2) inputFact outputFact
    ((forall₂_windowGroups options h).imp fun _ _ hrow => hcells hrow) newUsageSide rfl
    ⟨hin.perm hinput.symm, hout.perm houtput.symm⟩
    (by rw [factSum_perm hinput, factSum_perm houtput]; exact (Nat.zero_add _).trans_le hfits)
  refine (foldl_noteRow_side (selected_windowRows options day)
    (fun side row => (noteUsageTokens side (input row.2) (output row.2)).1) hnote _).trans ?_
  rw [hnew]
  refine hfold.trans ?_
  rw [someKnown_perm hinput, someKnown_perm houtput, factSum_perm hinput, factSum_perm houtput]
  simp [newUsageSide]

theorem reported_windowTally (huniform : TokensUniform (windowRequests options requests)) :
    (windowTally options day).reported
      = { seen := reportedKnown (windowRequests options requests)
          exact_ := true
          value := reportedTotal (windowRequests options requests) } :=
  side_windowTally h WindowTally.reported (fun _ _ hselects => by rw [noteRow, if_pos hselects]) rfl
    (fun hrow => ⟨hrow.reportedInput, hrow.reportedOutput⟩) huniform.reportedInput
    huniform.reportedOutput huniform.reportedFits

theorem estimated_windowTally (huniform : TokensUniform (windowRequests options requests))
    (hnone : reportedKnown (windowRequests options requests) = false) :
    (windowTally options day).estimated
      = { seen := estimatedKnown (windowRequests options requests)
          exact_ := true
          value := estimatedTotal (windowRequests options requests) } := by
  obtain ⟨hin, hout, hfits⟩ := huniform.estimated hnone
  exact side_windowTally h WindowTally.estimated (fun _ _ hselects => by rw [noteRow, if_pos hselects])
    rfl (fun hrow => ⟨hrow.estimatedInput, hrow.estimatedOutput⟩) hin hout hfits

theorem mem_windowRequests_of_row {row : MutableAggregate}
    (hrow : ((minute, key), row) ∈ windowRows options day) :
    ∀ request ∈ requestsOf minute key requests, request ∈ windowRequests options requests := by
  intro request hin
  obtain ⟨hrequest, hplace⟩ := List.mem_filter.mp hin
  rw [decide_eq_true_eq] at hplace
  obtain ⟨rfl, rfl⟩ := hplace
  refine List.mem_filter.mpr ⟨hrequest, ?_⟩
  exact (mem_windowKeys_iff h hrequest).mp (List.mem_map.mpr ⟨_, hrow, rfl⟩)

theorem estimatedOnly_windowTally (huniform : TokensUniform (windowRequests options requests))
    (hknown : reportedKnown (windowRequests options requests) = true) :
    (windowTally options day).estimatedOnlyRequest = false := by
  unfold windowTally
  rw [foldl_noteRow_estimatedOnly (selected_windowRows options day)]
  · rfl
  · intro row hrow
    obtain ⟨⟨⟨minute, key⟩, aggregate⟩, hin, rfl⟩ := List.mem_map.mp hrow
    obtain ⟨-, hlisted, hkey⟩ := mem_windowRows.mp hin
    have hrep := h minute key (kind_of_selects hkey)
    rw [mem_rowsAt hlisted] at hrep
    have hsub := mem_windowRequests_of_row h hin
    by_cases hnil : requestsOf minute key requests = []
    · rw [hnil] at hrep
      exact .inr (.inr ⟨hrep.estimatedInput.known, hrep.estimatedOutput.known⟩)
    · rw [reportedKnown, Bool.or_eq_true] at hknown
      rcases hknown with hinput | houtput
      · refine .inl (known_ne_zero_of_isSome hrep.reportedInput (by simpa [reportedFacts]) ?_)
        intro fact hfact
        obtain ⟨request, hrequest, rfl⟩ := List.mem_map.mp hfact
        exact huniform.reportedInput.isSome_of_someKnown hinput _
          (List.mem_map.mpr ⟨request, hsub request hrequest, rfl⟩)
      · refine .inr (.inl (known_ne_zero_of_isSome hrep.reportedOutput (by simpa [reportedFacts])
          ?_))
        intro fact hfact
        obtain ⟨request, hrequest, rfl⟩ := List.mem_map.mp hfact
        exact huniform.reportedOutput.isSome_of_someKnown houtput _
          (List.mem_map.mpr ⟨request, hsub request hrequest, rfl⟩)

omit h

variable (options) in
/-- The tokens of the window are summed. -/
theorem tokens_usedInWindow (h : DayRepresents day requests) (hperiod : options.period ≠ .month)
    (huniform : TokensUniform (windowRequests options requests)) :
    ((usedInWindow options (some day)).tokens, (usedInWindow options (some day)).basis)
      = windowUsage (windowRequests options requests) := by
  have hreported := reported_windowTally h huniform
  rw [usedInWindow_eq hperiod]
  unfold windowUsage usageReading
  cases hknown : reportedKnown (windowRequests options requests) with
  | true =>
    rw [estimatedOnly_windowTally h huniform hknown, hreported, hknown]
    simp
  | false =>
    rw [estimated_windowTally h huniform hknown, hreported, hknown]
    cases estimatedKnown (windowRequests options requests) <;> simp

end Figures

/-! ## The figures of a store -/

/-- What the requests report and estimate. -/
def tokenFacts (requests : List AppliedRequest) : List (List (Option Nat)) :=
  requests.map fun request =>
    [safeCounter (request.tokens.reported .reportedInput).value,
      safeCounter (request.tokens.reported .reportedOutput).value,
      safeCounter (request.tokens.estimated .estimatedInput).value,
      safeCounter (request.tokens.estimated .estimatedOutput).value]

/-- The facts of two lists of requests, one by one. -/
structure SameFacts (requests requests' : List AppliedRequest) : Prop where
  reported : ∀ cell, cell = .reportedInput ∨ cell = .reportedOutput →
    (reportedFacts cell requests).Perm (reportedFacts cell requests')
  estimated : ∀ cell, (estimatedFacts cell requests).Perm (estimatedFacts cell requests')

variable {requests' : List AppliedRequest}

variable {requests : List AppliedRequest}

theorem sameFacts_of_perm (h : (tokenFacts requests).Perm (tokenFacts requests')) :
    SameFacts requests requests' := by
  have hfacts : ∀ i : Nat, ((tokenFacts requests).map fun facts => (facts[i]?).join).Perm
      ((tokenFacts requests').map fun facts => (facts[i]?).join) := fun i => h.map _
  constructor
  · rintro cell (rfl | rfl)
    · simpa [tokenFacts, reportedFacts, Function.comp_def] using hfacts 0
    · simpa [tokenFacts, reportedFacts, Function.comp_def] using hfacts 1
  · intro cell
    cases cell with
    | estimatedInput => simpa [tokenFacts, estimatedFacts, Function.comp_def] using hfacts 2
    | estimatedOutput => simpa [tokenFacts, estimatedFacts, Function.comp_def] using hfacts 3

/-- Requests of the same facts have the same token figure, in whatever order. -/
theorem SameFacts.windowUsage {requests requests' : List AppliedRequest}
    (h : SameFacts requests requests') : windowUsage requests = windowUsage requests' := by
  have hin := h.reported .reportedInput (.inl rfl)
  have hout := h.reported .reportedOutput (.inr rfl)
  unfold Accounting.windowUsage reportedKnown reportedTotal estimatedKnown estimatedTotal
  rw [someKnown_perm hin, someKnown_perm hout, factSum_perm hin, factSum_perm hout,
    someKnown_perm (h.estimated _), someKnown_perm (h.estimated _),
    factSum_perm (h.estimated _), factSum_perm (h.estimated _)]

theorem SameFacts.tokensUniform (h : SameFacts requests requests')
    (huniform : TokensUniform requests) : TokensUniform requests' := by
  have hin := h.reported .reportedInput (.inl rfl)
  have hout := h.reported .reportedOutput (.inr rfl)
  refine ⟨huniform.reportedInput.perm hin, huniform.reportedOutput.perm hout, ?_, fun hnone => ?_⟩
  · have hfits := huniform.reportedFits
    rwa [reportedTotal, factSum_perm hin, factSum_perm hout] at hfits
  · rw [reportedKnown, ← someKnown_perm hin, ← someKnown_perm hout] at hnone
    obtain ⟨hein, heout, hfits⟩ := huniform.estimated hnone
    refine ⟨hein.perm (h.estimated _), heout.perm (h.estimated _), ?_⟩
    rwa [estimatedTotal, factSum_perm (h.estimated _), factSum_perm (h.estimated _)] at hfits

namespace AccountingWorld

/-- The requests that a window of the store is about. -/
def windowRequests (world : AccountingWorld) (options : UsedInWindowOptions) (date : Text) :
    List AppliedRequest :=
  Accounting.windowRequests options (world.applied date)

/-- The day that the store reads, if it has one. -/
def readDay (world : AccountingWorld) (date : Text) : Option MutableDay :=
  if world.store.closed then world.store.days date else world.store.loadedDay date

/-- What the store answers. -/
def reading (world : AccountingWorld) (options : UsedInWindowOptions) (date : Text) :
    UsedInWindowReading :=
  world.store.usedInWindow options date

end AccountingWorld

/-- What a window has to do with the requests it is about: a count is their number, and a
token figure is the sum over them, which is there whenever the day is. -/
structure WindowSound (world : AccountingWorld) (options : UsedInWindowOptions)
    (date : Text) : Prop where
  requests : ∀ n, (world.reading options date).requests = some n →
    n = (world.windowRequests options date).length
  tokens : ∀ n, (world.reading options date).tokens = some n →
    TokensUniform (world.windowRequests options date) →
    (some n, (world.reading options date).basis)
      = windowUsage (world.windowRequests options date)
  figure : (world.readDay date).isSome = true →
    TokensUniform (world.windowRequests options date) →
    ((world.reading options date).tokens, (world.reading options date).basis)
      = windowUsage (world.windowRequests options date)

theorem DayKept.windowSound {world : AccountingWorld} {date : Text} (h : DayKept world date)
    {options : UsedInWindowOptions} (hperiod : options.period ≠ .month)
    (hle : (world.windowRequests options date).length ≤ maxSafeInteger) :
    WindowSound world options date := by
  have hreading : world.reading options date
      = usedInWindow options (world.readDay date) := rfl
  cases hread : world.readDay date with
  | none =>
    have hempty : world.reading options date = USED_WINDOW_EMPTY := by
      rw [hreading, hread]
      simp [usedInWindow, newWindowTally, usageReading, newUsageSide, USED_WINDOW_EMPTY]
    refine ⟨fun n hn => ?_, fun n hn => ?_, fun hsome => ?_⟩
    · rw [hempty] at hn
      cases hn
    · rw [hempty] at hn
      cases hn
    · rw [hread] at hsome
      cases hsome
  | some day =>
    have hday : DayRepresents day (world.applied date) := by
      unfold AccountingWorld.readDay at hread
      split at hread
      · exact h.memory day hread
      · exact h.loadedDay hread
    rw [hread] at hreading
    have hfigure := fun huniform => tokens_usedInWindow options hday hperiod huniform
    rw [← hreading] at hfigure
    refine ⟨fun n hn => ?_, fun n hn huniform => ?_, fun _ => hfigure⟩
    · rw [hreading, requests_usedInWindow hday hperiod hle] at hn
      split at hn
      · exact (Option.some.inj hn).symm
      · cases hn
    · rw [← hn]
      exact hfigure huniform

/-- **The usage window**: in every run in which each request of the day is counted in its row
and retention spares the day, a count is the number of requests of the window, and requests
that agree on what they report give the sum, the same in every other such run that has
applied requests of the same facts to whatever minutes and rows. -/
theorem usedInWindow_sound {dedupLimit : Nat} {steps : List StoreStep} {date : Text}
    {options : UsedInWindowOptions} (hperiod : options.period ≠ .month)
    (hfits : FitsRun dedupLimit date .opened steps)
    (hle : ((AccountingWorld.opened.after dedupLimit steps).windowRequests options date).length
      ≤ maxSafeInteger) :
    WindowSound (AccountingWorld.opened.after dedupLimit steps) options date
      ∧ ∀ dedupLimit' steps' date' options',
        options'.period ≠ .month →
        FitsRun dedupLimit' date' .opened steps' →
        let world := AccountingWorld.opened.after dedupLimit steps
        let world' := AccountingWorld.opened.after dedupLimit' steps'
        (tokenFacts (world.windowRequests options date)).Perm
          (tokenFacts (world'.windowRequests options' date')) →
        TokensUniform (world.windowRequests options date) →
        (world.readDay date).isSome = true → (world'.readDay date').isSome = true →
        (world'.reading options' date').tokens = (world.reading options date).tokens
          ∧ (world'.reading options' date').basis = (world.reading options date).basis := by
  have hsound := ((DayKept.opened date).after hfits).windowSound hperiod hle
  refine ⟨hsound, ?_⟩
  intro dedupLimit' steps' date' options' hperiod' hfits' world world' hperm huniform hday hday'
  have hsame := sameFacts_of_perm hperm
  have hlength : (world'.windowRequests options' date').length ≤ maxSafeInteger := by
    have heq := hperm.length_eq
    simp only [tokenFacts, List.length_map] at heq
    rw [← heq]
    exact hle
  have hsound' := ((DayKept.opened date').after hfits').windowSound hperiod' hlength
  have hfigure := hsound.figure hday huniform
  have hfigure' := hsound'.figure hday' (hsame.tokensUniform huniform)
  rw [← hsame.windowUsage, ← hfigure] at hfigure'
  exact ⟨congrArg Prod.fst hfigure', congrArg Prod.snd hfigure'⟩

/-! ## Runs of one and of two requests -/

section Example

def sampleCredential : Text := text "nim#main"

/-- A successful request of one credential that reports so many input tokens. -/
def terminalOfInput (requestId : String) (input : Nat) : TerminalRequest where
  requestId := text requestId
  event := requestOfInput input
  outcome := .success
  failureKind := none
  client := none
  provider := none
  model := none
  credentialId := some sampleCredential
  attribution := .relay_held
  attempts := []

/-- The minute in which the requests of the example end. -/
def sampleWindow : UsedInWindowOptions where
  credentialId := sampleCredential
  model := none
  period := .minute
  minute := text "10:00"

def sampleDate : Text := text "2026-09-01"

/-- One request is counted. -/
theorem usedInWindow_sound_one :
    WindowSound (AccountingWorld.opened.after 10 [.terminal (terminalOfInput "a" 7)])
      sampleWindow sampleDate := by
  have hcounted : CountedIn emptyDay (terminalOfInput "a" 7) :=
    ⟨by decide +kernel, by decide +kernel, by decide +kernel⟩
  have hfits : FitsRun 10 sampleDate .opened [.terminal (terminalOfInput "a" 7)] := by
    refine ⟨fun _ _ day hday _ => ?_, trivial⟩
    obtain rfl : emptyDay = day := Option.some.inj hday
    exact hcounted
  exact (usedInWindow_sound (by decide) hfits (by decide +kernel)).1

/-- After a request of the largest token count, a request of one token in the same minute is
applied and not counted. -/
theorem usedInWindow_undercounts :
    ¬WindowSound (AccountingWorld.opened.after 10
        [.terminal (terminalOfInput "a" maxSafeInteger), .terminal (terminalOfInput "b" 1)])
      sampleWindow sampleDate := by
  intro h
  have hcount := h.requests 1 (by decide +kernel)
  revert hcount
  decide +kernel

end Example

end LlmRelay.Accounting
