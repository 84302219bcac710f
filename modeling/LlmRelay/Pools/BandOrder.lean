import LlmRelay.Pools.Materialize

/-!
# The order of a dynamic pool

A pool is the preferred prefix, its band, and the tail of the lower bands. Each part orders its
free specs before the others and lets the providers take turns. In the tail, the specs of all
lower bands take their turns together, so that a weaker band may come before a stronger one.

## Main definitions

* `bandOf`: the strongest band, of a pool's and those below, that admits a deployment;
* `PartOrdered`, `LaidOut`: what a part and a pool should be;
* `SpecsApart`, `BandsInTurn`: when a pool is that.

## Main results

* `computeDegradeTail_eq`: the tail, band after band;
* `partOrdered_orderBandByCost`: what the order of a part keeps;
* `dynamic_pool_laid_out_iff`: when a materialized pool is laid out.
-/

namespace LlmRelay.Pools

open Ecma Config

/-! ## Bands -/

/-- The strongest band, of the pool's and those below, that admits a deployment. -/
def bandOf (policy : PoolPolicy) (entry : RankedTarget) : Option Config.EffortLevel :=
  policy.effort.bind fun effort =>
    (effort :: lowerBands effort).find? (strengthAllowedForEffort entry.strength)

/-- A deployment of the pool's band; a pool without a band has them all. -/
def inBand (policy : PoolPolicy) (entry : RankedTarget) : Bool :=
  usableFor policy entry && decide (bandOf policy entry = policy.effort)

/-- A deployment of a lower band. -/
def inLowerBand (policy : PoolPolicy) (entry : RankedTarget) : Bool :=
  usableFor policy entry && (bandOf policy entry).isSome
    && decide (bandOf policy entry ≠ policy.effort)

/-- One band is below the other. -/
def Weaker : Option Config.EffortLevel → Option Config.EffortLevel → Prop
  | some a, some b => EFFORT_LEVELS.idxOf a < EFFORT_LEVELS.idxOf b
  | _, _ => False

/-- The specs among deployments in rank order, each by the first that has it. -/
def specsAmong (p : RankedTarget → Bool) (ranked : List RankedTarget) : List RankedTarget :=
  firstBy RankedTarget.spec (ranked.filter p)

/-- The specs of the lower bands, the strongest band first and each band in rank order. -/
def lowerSpecs (policy : PoolPolicy) (ranked : List RankedTarget) : List RankedTarget :=
  (policy.effort.map lowerBands).getD [] |>.flatMap fun band =>
    (specsAmong (inLowerBand policy) ranked).filter fun entry =>
      decide (bandOf policy entry = some band)

/-! ## What a pool should be -/

section Specification

variable (costBySpec : OrderedMap Text Facts.CostClass) (policy : PoolPolicy)

/-- A part of a pool: the specs of a list of deployments in rank order, without the preferred
ones. In each band the free specs come first, and those of a provider and a cost class in rank
order; the bands come one after the other. -/
structure PartOrdered (among : List RankedTarget) (part : List Text) : Prop where
  mem_iff : ∀ s, s ∈ part ↔ s ∉ policy.preferred ∧ ∃ x ∈ among, x.spec = s
  free_first : ∀ x ∈ among, ∀ y ∈ among, bandOf policy x = bandOf policy y →
    isFree costBySpec x.spec = true → isFree costBySpec y.spec = false →
    ¬[y.spec, x.spec].Sublist part
  rank_kept : ∀ x y, [x, y].Sublist among → bandOf policy x = bandOf policy y →
    x.target.provider = y.target.provider →
    costBySpec.get? x.spec = costBySpec.get? y.spec →
    x.spec ∉ policy.preferred → y.spec ∉ policy.preferred → [x.spec, y.spec].Sublist part
  bands : ∀ x ∈ among, ∀ y ∈ among, Weaker (bandOf policy x) (bandOf policy y) →
    ¬[x.spec, y.spec].Sublist part

/-- The preferred specs that are not excluded. -/
def preferredPrefix : List Text :=
  policy.preferred.filter fun s => decide (s ∉ policy.exclude.getD [])

/-- A pool as it should be, with the list of its degraded specs. -/
structure LaidOut (ranked : List RankedTarget) (pool degraded : List Text) : Prop where
  parts : ∃ band,
    pool = preferredPrefix policy ++ band ++ degraded
      ∧ PartOrdered costBySpec policy (specsAmong (inBand policy) ranked) band
      ∧ PartOrdered costBySpec policy (specsAmong (inLowerBand policy) ranked) degraded
  nodup : pool.Nodup
  none_excluded : ∀ s ∈ pool, s ∉ policy.exclude.getD []
  covered : ∀ x ∈ ranked, usableFor policy x = true →
    policy.effort = none ∨ (bandOf policy x).isSome = true → pool.count x.spec = 1

/-- No two deployments of the band share a spec that is not preferred. -/
def SpecsApart (ranked : List RankedTarget) : Prop :=
  ((ranked.filter fun x => inBand policy x && decide (x.spec ∉ policy.preferred)).map
    RankedTarget.spec).Nodup

/-- Whenever two specs of the lower bands are not preferred, the one of the weaker band is not
free while the other is not, and with both free or neither, it has no sooner turn. -/
def BandsInTurn (ranked : List RankedTarget) : Prop :=
  ∀ x ∈ lowerSpecs policy ranked, ∀ y ∈ lowerSpecs policy ranked,
    x.spec ∉ policy.preferred → y.spec ∉ policy.preferred →
    Weaker (bandOf policy x) (bandOf policy y) →
    ¬(isFree costBySpec x.spec = true ∧ isFree costBySpec y.spec = false)
      ∧ (isFree costBySpec x.spec = isFree costBySpec y.spec →
        ¬Sooner (fun entry => entry.target.provider)
          ((lowerSpecs policy ranked).filter fun e =>
            decide (isFree costBySpec e.spec = isFree costBySpec x.spec)) x y)

end Specification

/-! ## The bands of a deployment -/

theorem effort_notMem_lowerBands (effort : Config.EffortLevel) : effort ∉ lowerBands effort := by
  cases effort <;> decide

theorem nodup_lowerBands (effort : Config.EffortLevel) : (lowerBands effort).Nodup := by
  cases effort <;> decide

variable {policy : PoolPolicy}

theorem inBand_eq_of_none (heffort : policy.effort = none) (entry : RankedTarget) :
    inBand policy entry = usableFor policy entry := by
  simp [inBand, bandOf, heffort]

variable {effort band : Config.EffortLevel}

theorem bandOf_eq_effort_iff (heffort : policy.effort = some effort) (entry : RankedTarget) :
    bandOf policy entry = some effort
      ↔ strengthAllowedForEffort entry.strength effort = true := by
  rw [bandOf, heffort, Option.bind_some, List.find?_cons]
  split
  · rename_i hallowed
    simp [hallowed]
  · rename_i hallowed
    rw [hallowed]
    constructor
    · intro hfind
      exact absurd (List.mem_of_find?_eq_some hfind) (effort_notMem_lowerBands effort)
    · intro h
      cases h

theorem inBandEntries_eq (policy : PoolPolicy) (ranked : List RankedTarget) :
    inBandEntries policy (ranked.filter (usableFor policy)) = ranked.filter (inBand policy) := by
  unfold inBandEntries
  cases heffort : policy.effort with
  | none =>
    apply List.filter_congr
    intro x _
    rw [inBand_eq_of_none heffort]
  | some effort =>
    dsimp only
    rw [List.filter_filter]
    apply List.filter_congr
    intro x _
    rw [inBand, heffort, Bool.eq_iff_iff, Bool.and_eq_true, Bool.and_eq_true,
      decide_eq_true_eq, bandOf_eq_effort_iff heffort]
    exact and_comm

theorem bandOf_eq_some_iff {earlier later : List Config.EffortLevel}
    (heffort : policy.effort = some effort)
    (hbands : effort :: lowerBands effort = earlier ++ band :: later) (entry : RankedTarget) :
    bandOf policy entry = some band
      ↔ strengthAllowedForEffort entry.strength band = true
        ∧ ∀ b ∈ earlier, strengthAllowedForEffort entry.strength b = false := by
  have hnodup : (earlier ++ band :: later).Nodup := by
    rw [← hbands]
    exact List.nodup_cons.mpr ⟨effort_notMem_lowerBands effort, nodup_lowerBands effort⟩
  have hnot : band ∉ earlier := fun hin =>
    (List.nodup_append.mp hnodup).2.2 band hin band List.mem_cons_self rfl
  rw [bandOf, heffort, Option.bind_some, hbands, List.find?_append]
  cases hfind : earlier.find? (strengthAllowedForEffort entry.strength) with
  | some b =>
    have hb := List.mem_of_find?_eq_some hfind
    have hallowed := List.find?_some hfind
    constructor
    · intro h
      cases h
      exact absurd hb hnot
    · rintro ⟨-, hearlier⟩
      rw [hearlier b hb] at hallowed
      cases hallowed
  | none =>
    have hearlier : ∀ b ∈ earlier, strengthAllowedForEffort entry.strength b = false := by
      intro b hb
      simpa using List.find?_eq_none.mp hfind b hb
    rw [List.find?_cons]
    split
    · rename_i hallowed
      exact ⟨fun _ => ⟨hallowed, hearlier⟩, fun _ => rfl⟩
    · rename_i hallowed
      rw [hallowed]
      constructor
      · intro hlater
        have hin := List.mem_of_find?_eq_some hlater
        have hafter := (List.nodup_append.mp hnodup).2.1
        exact absurd hin (List.nodup_cons.mp hafter).1
      · rintro ⟨h, -⟩
        cases h

/-! ## The tail -/

/-- What a round of the outer loop adds: the specs that the band admits and that were not
seen. -/
def addedBy (band : Config.EffortLevel) (seen : List Text) (usable : List RankedTarget) :
    List RankedTarget :=
  firstBy RankedTarget.spec (usable.filter fun e =>
    decide (e.spec ∉ seen) && strengthAllowedForEffort e.strength band)

theorem addedBy_cons_of_skip {seen : List Text} {entry : RankedTarget}
    (h : entry.spec ∈ seen ∨ strengthAllowedForEffort entry.strength band = false)
    (usable : List RankedTarget) :
    addedBy band seen (entry :: usable) = addedBy band seen usable := by
  unfold addedBy
  rcases h with hseen | hweak
  · simp [hseen]
  · simp [hweak]

theorem addedBy_cons_of_new {seen : List Text} {entry : RankedTarget} (hseen : entry.spec ∉ seen)
    (hallowed : strengthAllowedForEffort entry.strength band = true) (usable : List RankedTarget) :
    addedBy band seen (entry :: usable)
      = entry :: addedBy band (seen ++ [entry.spec]) usable := by
  have hrest : (usable.filter fun e =>
        decide (e.spec ∉ seen ++ [entry.spec]) && strengthAllowedForEffort e.strength band)
      = (usable.filter fun e =>
        decide (e.spec ∉ seen) && strengthAllowedForEffort e.strength band).filter
          fun e => decide (e.spec ≠ entry.spec) := by
    rw [List.filter_filter]
    apply List.filter_congr
    intro e _
    by_cases heq : e.spec = entry.spec <;> simp [heq]
  unfold addedBy
  rw [List.filter_cons_of_pos (by simp [hseen, hallowed]), firstBy, hrest]
  congr 1
  symm
  apply firstBy_filter
  intro a _ b _ heq
  rw [heq]

theorem foldl_visit (band : Config.EffortLevel) (usable : List RankedTarget) (state : TailState) :
    usable.foldl (TailState.visit band) state
      = { seen := state.seen ++ (addedBy band state.seen usable).map RankedTarget.spec
          tail := state.tail ++ addedBy band state.seen usable } := by
  induction usable generalizing state with
  | nil => simp [addedBy, firstBy]
  | cons entry usable ih =>
    rw [List.foldl_cons, ih, TailState.visit]
    split
    · rename_i hskip
      rw [addedBy_cons_of_skip hskip]
    · rename_i hnew
      rw [not_or, Bool.not_eq_false] at hnew
      rw [addedBy_cons_of_new hnew.1 hnew.2]
      simp

section Tail

variable {ranked : List RankedTarget}
  (hstrength : ∀ x ∈ ranked, ∀ y ∈ ranked, x.spec = y.spec → x.strength = y.strength)

include hstrength

theorem bandOf_congr (policy : PoolPolicy) {x y : RankedTarget} (hx : x ∈ ranked)
    (hy : y ∈ ranked) (heq : x.spec = y.spec) : bandOf policy x = bandOf policy y := by
  unfold bandOf
  rw [hstrength x hx y hy heq]

theorem tail_foldl_visit {policy : PoolPolicy} (heffort : policy.effort = some effort)
    {usable : List RankedTarget} (husable : usable.Sublist ranked)
    {earlier bands : List Config.EffortLevel}
    (hbands : effort :: lowerBands effort = earlier ++ bands) {state : TailState}
    (hseen : ∀ x ∈ usable, x.spec ∈ state.seen
      ↔ ∃ b ∈ earlier, strengthAllowedForEffort x.strength b = true) :
    (bands.foldl (fun state band => usable.foldl (TailState.visit band) state) state).tail
      = state.tail ++ bands.flatMap fun band =>
          firstBy RankedTarget.spec (usable.filter fun e =>
            decide (bandOf policy e = some band)) := by
  induction bands generalizing earlier state with
  | nil => simp
  | cons band bands ih =>
    have hadded : addedBy band state.seen usable
        = firstBy RankedTarget.spec (usable.filter fun e =>
            decide (bandOf policy e = some band)) := by
      unfold addedBy
      congr 1
      apply List.filter_congr
      intro x hx
      rw [Bool.eq_iff_iff, Bool.and_eq_true, decide_eq_true_eq, decide_eq_true_eq,
        bandOf_eq_some_iff heffort hbands, hseen x hx]
      simp only [not_exists, not_and, Bool.not_eq_true]
      exact and_comm
    rw [List.foldl_cons, foldl_visit, hadded]
    have hmore : effort :: lowerBands effort = (earlier ++ [band]) ++ bands := by
      rw [hbands, List.append_assoc]
      rfl
    rw [ih hmore]
    · simp
    · intro x hx
      simp only [List.mem_append, List.mem_singleton, List.mem_map]
      constructor
      · rintro (hold | ⟨y, hy, hspec⟩)
        · obtain ⟨b, hb, hallowed⟩ := (hseen x hx).mp hold
          exact ⟨b, .inl hb, hallowed⟩
        · obtain ⟨hin, hband⟩ := List.mem_filter.mp ((firstBy_sublist _ _).subset hy)
          have hallowed :=
            ((bandOf_eq_some_iff heffort hbands y).mp (of_decide_eq_true hband)).1
          rw [hstrength y (husable.subset hin) x (husable.subset hx) hspec] at hallowed
          exact ⟨band, .inr rfl, hallowed⟩
      · rintro ⟨b, hb, hallowed⟩
        by_cases hold : x.spec ∈ state.seen
        · exact .inl hold
        · -- then no earlier band admits it, and this one does
          have hnone : ∀ b ∈ earlier, strengthAllowedForEffort x.strength b = false := by
            intro b hb
            rw [← Bool.not_eq_true]
            exact fun h => hold ((hseen x hx).mpr ⟨b, hb, h⟩)
          rcases hb with hb | rfl
          · rw [hnone b hb] at hallowed
            cases hallowed
          · have hband := (bandOf_eq_some_iff heffort hbands x).mpr ⟨hallowed, hnone⟩
            apply Or.inr
            exact exists_mem_firstBy RankedTarget.spec
              (List.mem_filter.mpr ⟨hx, decide_eq_true hband⟩)

/-- **The tail**: the lower bands, the strongest first. -/
theorem computeDegradeTail_eq (policy : PoolPolicy) :
    computeDegradeTail (ranked.filter (usableFor policy)) policy.effort
        ((ranked.filter (inBand policy)).map RankedTarget.spec)
      = lowerSpecs policy ranked := by
  unfold computeDegradeTail lowerSpecs
  cases heffort : policy.effort with
  | none => rfl
  | some effort =>
    dsimp only
    have hbands : effort :: lowerBands effort = [effort] ++ lowerBands effort := rfl
    rw [tail_foldl_visit hstrength heffort List.filter_sublist hbands]
    · rw [List.nil_append]
      apply List.flatMap_congr
      intro band hband
      have hne : band ≠ effort := by
        rintro rfl
        exact effort_notMem_lowerBands band hband
      unfold specsAmong
      rw [← firstBy_filter]
      · congr 1
        rw [List.filter_filter, List.filter_filter]
        apply List.filter_congr
        intro x _
        by_cases hx : bandOf policy x = some band
        · simp [inLowerBand, hx, heffort, hne]
        · simp [hx]
      · intro x hx y hy heq
        rw [bandOf_congr hstrength policy (List.mem_of_mem_filter hx)
          (List.mem_of_mem_filter hy) heq]
    · intro x hx
      have hband (y : RankedTarget) : inBand policy y = true
          ↔ usableFor policy y = true ∧ strengthAllowedForEffort y.strength effort = true := by
        rw [inBand, heffort, Bool.and_eq_true, decide_eq_true_eq, bandOf_eq_effort_iff heffort]
      obtain ⟨hin, husable⟩ := List.mem_filter.mp hx
      simp only [List.mem_map, List.mem_filter, List.mem_singleton, exists_eq_left, hband]
      constructor
      · rintro ⟨y, ⟨hy, -, hallowed⟩, hspec⟩
        rw [← hstrength y hy x hin hspec]
        exact hallowed
      · intro hallowed
        exact ⟨x, ⟨hin, husable, hallowed⟩, rfl⟩

end Tail

/-! ## The order of a part -/

section Order

variable (costBySpec : OrderedMap Text Facts.CostClass)

/-- The order of a part: the free specs first, and in each half by turns. -/
def Ahead (entries : List RankedTarget) (x y : RankedTarget) : Prop :=
  (isFree costBySpec x.spec = true ∧ isFree costBySpec y.spec = false)
    ∨ (isFree costBySpec x.spec = isFree costBySpec y.spec
      ∧ Sooner (fun entry => entry.target.provider)
          (entries.filter fun e => decide (isFree costBySpec e.spec = isFree costBySpec x.spec))
          x y)

variable {x : RankedTarget}

theorem Ahead.asymm {entries : List RankedTarget} {y : RankedTarget}
    (h : Ahead costBySpec entries x y) : ¬Ahead costBySpec entries y x := by
  rintro (⟨hy, hx⟩ | ⟨heq, hlater⟩)
  · rcases h with ⟨hx', -⟩ | ⟨heq, -⟩
    · rw [hx] at hx'
      cases hx'
    · rw [hx, hy] at heq
      cases heq
  · rcases h with ⟨hx, hy⟩ | ⟨-, hsooner⟩
    · rw [hx, hy] at heq
      cases heq
    · rw [heq] at hlater
      exact hsooner.asymm _ hlater

variable {costBySpec} {entries : List RankedTarget}

theorem filter_isFree_eq (free : Bool) :
    (entries.filter fun e => decide (isFree costBySpec e.spec = free))
      = if free = true then entries.filter fun e => isFree costBySpec e.spec
        else entries.filter fun e => !isFree costBySpec e.spec := by
  cases free <;> simp

theorem orderBandByCost_eq :
    orderBandByCost entries costBySpec
      = interleaveByProvider (entries.filter fun e => decide (isFree costBySpec e.spec = true))
        ++ interleaveByProvider
            (entries.filter fun e => decide (isFree costBySpec e.spec = false)) := by
  rw [filter_isFree_eq, filter_isFree_eq]
  rfl

theorem mem_orderBandByCost : x ∈ orderBandByCost entries costBySpec ↔ x ∈ entries := by
  rw [orderBandByCost, List.mem_append, interleaveByProvider, interleaveByProvider,
    mem_interleaveBy, mem_interleaveBy, List.mem_filter, List.mem_filter]
  cases isFree costBySpec x.spec <;> simp

variable (hnodup : entries.Nodup)

include hnodup

theorem pairwise_orderBandByCost :
    (orderBandByCost entries costBySpec).Pairwise (Ahead costBySpec entries) := by
  have hclass (free : Bool) :
      (interleaveByProvider (entries.filter fun e =>
        decide (isFree costBySpec e.spec = free))).Pairwise (Ahead costBySpec entries) := by
    apply (pairwise_interleaveBy _ (hnodup.filter _)).imp_of_mem
    intro x y hx hy hsooner
    have hx := of_decide_eq_true (List.mem_filter.mp ((mem_interleaveBy _).mp hx)).2
    have hy := of_decide_eq_true (List.mem_filter.mp ((mem_interleaveBy _).mp hy)).2
    refine .inr ⟨hx.trans hy.symm, ?_⟩
    rw [hx]
    exact hsooner
  rw [orderBandByCost_eq]
  apply List.pairwise_append.mpr
  refine ⟨hclass true, hclass false, ?_⟩
  intro x hx y hy
  have hx := of_decide_eq_true (List.mem_filter.mp ((mem_interleaveBy _).mp hx)).2
  have hy := of_decide_eq_true (List.mem_filter.mp ((mem_interleaveBy _).mp hy)).2
  exact .inl ⟨hx, hy⟩

theorem pair_sublist_orderBandByCost {y : RankedTarget} (hsub : [x, y].Sublist entries)
    (hprovider : x.target.provider = y.target.provider)
    (hfree : isFree costBySpec x.spec = isFree costBySpec y.spec) :
    [x, y].Sublist (orderBandByCost entries costBySpec) := by
  have hclass : [x, y].Sublist (interleaveByProvider (entries.filter fun e =>
      decide (isFree costBySpec e.spec = isFree costBySpec x.spec))) := by
    have hkept := filter_interleaveBy (fun entry : RankedTarget => entry.target.provider)
      (hnodup.filter fun e => decide (isFree costBySpec e.spec = isFree costBySpec x.spec))
      x.target.provider
    have hpair := (hsub.filter fun e =>
      decide (isFree costBySpec e.spec = isFree costBySpec x.spec)).filter fun e =>
        decide (e.target.provider = x.target.provider)
    rw [← hkept] at hpair
    have hboth : (([x, y].filter fun e =>
        decide (isFree costBySpec e.spec = isFree costBySpec x.spec)).filter fun e =>
          decide (e.target.provider = x.target.provider)) = [x, y] := by
      simp [hfree, hprovider]
    rw [hboth] at hpair
    exact hpair.trans List.filter_sublist
  rw [orderBandByCost_eq]
  cases hx : isFree costBySpec x.spec with
  | true =>
    rw [hx] at hclass
    exact hclass.trans (List.sublist_append_left _ _)
  | false =>
    rw [hx] at hclass
    exact hclass.trans (List.sublist_append_right _ _)

end Order

/-! ## The parts of a pool -/

section Parts

variable (costBySpec : OrderedMap Text Facts.CostClass) (policy : PoolPolicy)

/-- The specs of deployments in the order of a part. -/
def partOf (entries : List RankedTarget) : List Text :=
  ((orderBandByCost entries costBySpec).map RankedTarget.spec).filter fun s =>
    decide (s ∉ policy.preferred)

variable {costBySpec policy} {entries : List RankedTarget}

theorem mem_partOf {s : Text} : s ∈ partOf costBySpec policy entries
    ↔ s ∉ policy.preferred ∧ ∃ x ∈ entries, x.spec = s := by
  simp only [partOf, List.mem_filter, List.mem_map, mem_orderBandByCost, decide_eq_true_eq]
  exact and_comm

theorem partOf_perm (hnodup : entries.Nodup) :
    (partOf costBySpec policy entries).Perm
      ((entries.filter fun x => decide (x.spec ∉ policy.preferred)).map RankedTarget.spec) := by
  have horder : (orderBandByCost entries costBySpec).Nodup := by
    apply (pairwise_orderBandByCost hnodup).imp
    rintro x y hahead rfl
    exact hahead.asymm costBySpec hahead
  have hperm : (orderBandByCost entries costBySpec).Perm entries :=
    (List.perm_ext_iff_of_nodup horder hnodup).mpr fun x => mem_orderBandByCost
  unfold partOf
  rw [List.filter_map]
  exact (hperm.filter _).map _

theorem exists_ahead_of_pair_sublist (hnodup : entries.Nodup) {s t : Text}
    (h : [s, t].Sublist (partOf costBySpec policy entries)) :
    ∃ x ∈ entries, ∃ y ∈ entries, x.spec = s ∧ y.spec = t ∧ Ahead costBySpec entries x y := by
  obtain ⟨l, hl, heq⟩ := List.sublist_map_iff.mp (h.trans List.filter_sublist)
  obtain ⟨x, rest, rfl, hxs, hrest⟩ := List.map_eq_cons_iff.mp heq.symm
  obtain ⟨y, none, rfl, hyt, hnil⟩ := List.map_eq_cons_iff.mp hrest
  obtain rfl := List.map_eq_nil_iff.mp hnil
  have hx := mem_orderBandByCost.mp (hl.subset List.mem_cons_self)
  have hy := mem_orderBandByCost.mp (hl.subset (List.mem_cons_of_mem x List.mem_cons_self))
  have hahead := List.pairwise_iff_forall_sublist.mp (pairwise_orderBandByCost hnodup) hl
  exact ⟨x, hx, y, hy, hxs, hyt, hahead⟩

theorem pair_sublist_partOf {x y : RankedTarget}
    (h : [x, y].Sublist (orderBandByCost entries costBySpec)) (hx : x.spec ∉ policy.preferred)
    (hy : y.spec ∉ policy.preferred) :
    [x.spec, y.spec].Sublist (partOf costBySpec policy entries) := by
  have hpair := (h.map RankedTarget.spec).filter fun s => decide (s ∉ policy.preferred)
  simpa [partOf, hx, hy] using hpair

/-- **What the order of a part keeps**: everything, given that the bands take their turns. -/
theorem partOrdered_partOf (hnodup : entries.Nodup) {among : List RankedTarget}
    (hamong : ∀ x ∈ among, x ∈ entries) (hspec : ∀ x ∈ entries, ∃ y ∈ among, y.spec = x.spec)
    (hband : ∀ x ∈ entries, ∀ y ∈ entries, x.spec = y.spec → bandOf policy x = bandOf policy y)
    (hrank : ∀ x y, [x, y].Sublist among → bandOf policy x = bandOf policy y →
      [x, y].Sublist entries)
    (hturn : ∀ x ∈ entries, ∀ y ∈ entries, x.spec ∉ policy.preferred →
      y.spec ∉ policy.preferred → Weaker (bandOf policy x) (bandOf policy y) →
      ¬Ahead costBySpec entries x y) :
    PartOrdered costBySpec policy among (partOf costBySpec policy entries) where
  mem_iff s := by
    rw [mem_partOf]
    refine and_congr_right fun _ => ?_
    constructor
    · rintro ⟨x, hx, rfl⟩
      exact hspec x hx
    · rintro ⟨x, hx, rfl⟩
      exact ⟨x, hamong x hx, rfl⟩
  free_first x hx y hy _ hfree hrest hsub := by
    obtain ⟨y', hy', x', hx', hyspec, hxspec, hahead⟩ := exists_ahead_of_pair_sublist hnodup hsub
    unfold Ahead at hahead
    rw [hyspec, hxspec, hfree, hrest] at hahead
    rcases hahead with ⟨h, -⟩ | ⟨h, -⟩
    · cases h
    · cases h
  rank_kept x y hsub hbands hprovider hcost hx hy := by
    apply pair_sublist_partOf _ hx hy
    apply pair_sublist_orderBandByCost hnodup (hrank x y hsub hbands) hprovider
    rw [isFree, isFree, hcost]
  bands x hx y hy hweaker hsub := by
    have hin := hsub.subset
    have hx' := (mem_partOf.mp (hin List.mem_cons_self)).1
    have hy' := (mem_partOf.mp (hin (List.mem_cons_of_mem _ List.mem_cons_self))).1
    obtain ⟨u, hu, v, hv, huspec, hvspec, hahead⟩ := exists_ahead_of_pair_sublist hnodup hsub
    rw [← hband u hu x (hamong x hx) huspec, ← hband v hv y (hamong y hy) hvspec] at hweaker
    rw [← huspec] at hx'
    rw [← hvspec] at hy'
    exact hturn u hu v hv hx' hy' hweaker hahead

end Parts

/-! ## One pool -/

section Pool

variable {ranked : List RankedTarget} {costBySpec : OrderedMap Text Facts.CostClass}
  {policy : PoolPolicy}

variable {p : RankedTarget → Bool} {x : RankedTarget}

theorem mem_specsAmong (h : x ∈ specsAmong p ranked) : x ∈ ranked ∧ p x = true :=
  List.mem_filter.mp ((firstBy_sublist _ _).subset h)

theorem exists_specsAmong (hx : x ∈ ranked) (hp : p x = true) :
    ∃ y ∈ specsAmong p ranked, y.spec = x.spec :=
  exists_mem_firstBy RankedTarget.spec (List.mem_filter.mpr ⟨hx, hp⟩)

theorem exists_lowerBand (h : inLowerBand policy x = true) :
    ∃ effort band, policy.effort = some effort ∧ band ∈ lowerBands effort
      ∧ bandOf policy x = some band := by
  simp only [inLowerBand, Bool.and_eq_true, decide_eq_true_eq] at h
  obtain ⟨⟨-, hsome⟩, hne⟩ := h
  obtain ⟨band, hband⟩ := Option.isSome_iff_exists.mp hsome
  have hfind := hband
  obtain ⟨effort, heffort, hfind⟩ := Option.bind_eq_some_iff.mp hfind
  refine ⟨effort, band, heffort, ?_, hband⟩
  apply (List.mem_cons.mp (List.mem_of_find?_eq_some hfind)).resolve_left
  rintro rfl
  exact hne (hband.trans heffort.symm)

theorem mem_lowerSpecs :
    x ∈ lowerSpecs policy ranked ↔ x ∈ specsAmong (inLowerBand policy) ranked := by
  simp only [lowerSpecs, List.mem_flatMap, List.mem_filter, decide_eq_true_eq]
  constructor
  · rintro ⟨band, -, hx, -⟩
    exact hx
  · intro hx
    obtain ⟨effort, band, heffort, hband, hbandOf⟩ := exists_lowerBand (mem_specsAmong hx).2
    refine ⟨band, ?_, hx, hbandOf⟩
    rw [heffort]
    exact hband

theorem pair_sublist_lowerSpecs {y : RankedTarget}
    (h : [x, y].Sublist (specsAmong (inLowerBand policy) ranked))
    (hband : bandOf policy x = bandOf policy y) : [x, y].Sublist (lowerSpecs policy ranked) := by
  obtain ⟨effort, band, heffort, hin, hbandOf⟩ :=
    exists_lowerBand (mem_specsAmong (h.subset List.mem_cons_self)).2
  have hpair := h.filter fun entry => decide (bandOf policy entry = some band)
  have hboth : ([x, y].filter fun entry => decide (bandOf policy entry = some band)) = [x, y] := by
    simp [← hband, hbandOf]
  rw [hboth] at hpair
  apply hpair.trans
  unfold lowerSpecs
  rw [heffort]
  exact List.sublist_flatten_of_mem (List.mem_map_of_mem hin)

theorem pairwise_lowerSpecs : (lowerSpecs policy ranked).Pairwise fun x y => x.spec ≠ y.spec := by
  have hfirst := pairwise_firstBy RankedTarget.spec (ranked.filter (inLowerBand policy))
  have hinj := List.inj_on_of_nodup_map (List.pairwise_map.mpr hfirst)
  apply List.pairwise_flatMap.mpr
  refine ⟨fun band _ => hfirst.filter _, ?_⟩
  cases heffort : policy.effort with
  | none => exact .nil
  | some effort =>
    apply (nodup_lowerBands effort).imp
    intro a b hab x hx y hy hspec
    obtain ⟨hx, hxa⟩ := List.mem_filter.mp hx
    obtain ⟨hy, hyb⟩ := List.mem_filter.mp hy
    obtain rfl := hinj hx hy hspec
    have hsame := (of_decide_eq_true hxa).symm.trans (of_decide_eq_true hyb)
    exact hab (Option.some.inj hsame)

theorem nodup_lowerSpecs : (lowerSpecs policy ranked).Nodup := by
  apply List.Pairwise.imp _ pairwise_lowerSpecs
  rintro x y hspec rfl
  exact hspec rfl

theorem bandOf_of_inBand (h : inBand policy x = true) : bandOf policy x = policy.effort := by
  rw [inBand, Bool.and_eq_true] at h
  exact of_decide_eq_true h.2

theorem usableFor_of_inLowerBand (h : inLowerBand policy x = true) : usableFor policy x = true := by
  rw [inLowerBand, Bool.and_eq_true, Bool.and_eq_true] at h
  exact h.1.1

theorem mem_preferredPrefix_iff (h : usableFor policy x = true) :
    x.spec ∈ preferredPrefix policy ↔ x.spec ∈ policy.preferred := by
  rw [usableFor, Bool.and_eq_true] at h
  have hout := of_decide_eq_true h.1
  simp [preferredPrefix, hout]

theorem Weaker.irrefl (band : Option Config.EffortLevel) : ¬Weaker band band := by
  cases band with
  | none => exact id
  | some b => exact Nat.lt_irrefl _

theorem spec_mem_members (hx : x ∈ ranked) (husable : usableFor policy x = true)
    (hadmitted : policy.effort = none ∨ (bandOf policy x).isSome = true) :
    x.spec ∈ preferredPrefix policy ++ partOf costBySpec policy (ranked.filter (inBand policy))
      ++ partOf costBySpec policy (lowerSpecs policy ranked) := by
  by_cases hpreferred : x.spec ∈ policy.preferred
  · have hprefix := (mem_preferredPrefix_iff husable).mpr hpreferred
    exact List.mem_append_left _ (List.mem_append_left _ hprefix)
  · by_cases hband : bandOf policy x = policy.effort
    · have hin : inBand policy x = true := by simp [inBand, husable, hband]
      apply List.mem_append_left
      apply List.mem_append_right
      exact mem_partOf.mpr ⟨hpreferred, x, List.mem_filter.mpr ⟨hx, hin⟩, rfl⟩
    · -- a pool without a band has everything in it
      have hsome : (bandOf policy x).isSome = true := by
        rcases hadmitted with hnone | hsome
        · rw [bandOf, hnone] at hband
          exact absurd rfl hband
        · exact hsome
      have hlower : inLowerBand policy x = true := by simp [inLowerBand, husable, hband, hsome]
      obtain ⟨y, hy, hspec⟩ := exists_specsAmong hx hlower
      apply List.mem_append_right
      exact mem_partOf.mpr ⟨hpreferred, y, mem_lowerSpecs.mpr hy, hspec⟩

theorem notMem_exclude_of_mem_members {s : Text}
    (hs : s ∈ preferredPrefix policy ++ partOf costBySpec policy (ranked.filter (inBand policy))
      ++ partOf costBySpec policy (lowerSpecs policy ranked)) : s ∉ policy.exclude.getD [] := by
  have husable : ∀ x : RankedTarget, usableFor policy x = true →
      x.spec ∉ policy.exclude.getD [] := by
    intro x hx
    rw [usableFor, Bool.and_eq_true] at hx
    exact of_decide_eq_true hx.1
  rcases List.mem_append.mp hs with hs | hlower
  · rcases List.mem_append.mp hs with hprefix | hband
    · exact of_decide_eq_true (List.mem_filter.mp hprefix).2
    · obtain ⟨-, x, hx, rfl⟩ := mem_partOf.mp hband
      have hin := (List.mem_filter.mp hx).2
      rw [inBand, Bool.and_eq_true] at hin
      exact husable x hin.1
  · obtain ⟨-, x, hx, rfl⟩ := mem_partOf.mp hlower
    exact husable x (usableFor_of_inLowerBand (mem_specsAmong (mem_lowerSpecs.mp hx)).2)

theorem nodup_band_iff (hnodup : ranked.Nodup) :
    (partOf costBySpec policy (ranked.filter (inBand policy))).Nodup
      ↔ SpecsApart policy ranked := by
  rw [(partOf_perm (hnodup.filter _)).nodup_iff, List.filter_filter, SpecsApart]
  simp only [Bool.and_comm]

variable
  (hstrength : ∀ x ∈ ranked, ∀ y ∈ ranked, x.spec = y.spec → x.strength = y.strength)

include hstrength

/-- **The tail of a pool** is in order exactly when the bands take their turns. -/
theorem partOrdered_inLowerBand_iff :
    PartOrdered costBySpec policy (specsAmong (inLowerBand policy) ranked)
        (partOf costBySpec policy (lowerSpecs policy ranked))
      ↔ BandsInTurn costBySpec policy ranked := by
  have hlower : (lowerSpecs policy ranked).Nodup := nodup_lowerSpecs
  constructor
  · intro h x hx y hy hxp hyp hweaker
    have hnot : ¬Ahead costBySpec (lowerSpecs policy ranked) x y := by
      intro hahead
      apply h.bands x (mem_lowerSpecs.mp hx) y (mem_lowerSpecs.mp hy) hweaker
      apply pair_sublist_partOf _ hxp hyp
      exact (pair_sublist_iff (pairwise_orderBandByCost hlower) (Ahead.asymm costBySpec)
        (mem_orderBandByCost.mpr hx) (mem_orderBandByCost.mpr hy)).mpr hahead
    exact ⟨fun h => hnot (.inl h), fun heq hsooner => hnot (.inr ⟨heq, hsooner⟩)⟩
  · intro h
    apply partOrdered_partOf hlower
    · intro x hx
      exact mem_lowerSpecs.mpr hx
    · intro x hx
      exact ⟨x, mem_lowerSpecs.mp hx, rfl⟩
    · intro x hx y hy heq
      exact bandOf_congr hstrength policy (mem_specsAmong (mem_lowerSpecs.mp hx)).1
        (mem_specsAmong (mem_lowerSpecs.mp hy)).1 heq
    · intro x y hsub hband
      exact pair_sublist_lowerSpecs hsub hband
    · intro x hx y hy hxp hyp hweaker hahead
      obtain ⟨hfree, hturn⟩ := h x hx y hy hxp hyp hweaker
      rcases hahead with hmixed | ⟨heq, hsooner⟩
      · exact hfree hmixed
      · exact hturn heq hsooner

theorem spec_notMem_inBand (hx : x ∈ specsAmong (inLowerBand policy) ranked) :
    x.spec ∉ (ranked.filter (inBand policy)).map RankedTarget.spec := by
  obtain ⟨hin, hlower⟩ := mem_specsAmong hx
  intro hmem
  obtain ⟨y, hy, hspec⟩ := List.mem_map.mp hmem
  obtain ⟨hy, hband⟩ := List.mem_filter.mp hy
  simp only [inLowerBand, Bool.and_eq_true, decide_eq_true_eq] at hlower
  apply hlower.2
  rw [← bandOf_congr hstrength policy hy hin hspec]
  exact bandOf_of_inBand hband

theorem materializePool_eq :
    materializePool ranked costBySpec policy
      = { members := preferredPrefix policy
            ++ partOf costBySpec policy (ranked.filter (inBand policy))
            ++ partOf costBySpec policy (lowerSpecs policy ranked)
          degraded := partOf costBySpec policy (lowerSpecs policy ranked) } := by
  have hband : (((orderBandByCost (ranked.filter (inBand policy)) costBySpec).map
        RankedTarget.spec).filter fun s => decide (s ∉ preferredPrefix policy))
      = partOf costBySpec policy (ranked.filter (inBand policy)) := by
    apply List.filter_congr
    intro s hs
    obtain ⟨x, hx, rfl⟩ := List.mem_map.mp hs
    have hin := (List.mem_filter.mp (mem_orderBandByCost.mp hx)).2
    rw [inBand, Bool.and_eq_true] at hin
    simp only [mem_preferredPrefix_iff hin.1]
  have htail : (((orderBandByCost (lowerSpecs policy ranked) costBySpec).map
        RankedTarget.spec).filter fun s => decide (s ∉ preferredPrefix policy)
          && decide (s ∉ (ranked.filter (inBand policy)).map RankedTarget.spec))
      = partOf costBySpec policy (lowerSpecs policy ranked) := by
    apply List.filter_congr
    intro s hs
    obtain ⟨x, hx, rfl⟩ := List.mem_map.mp hs
    have hx := mem_lowerSpecs.mp (mem_orderBandByCost.mp hx)
    have hout := spec_notMem_inBand hstrength hx
    have husable := usableFor_of_inLowerBand (mem_specsAmong hx).2
    simp only [mem_preferredPrefix_iff husable, hout, not_false_eq_true, decide_true, Bool.and_true]
  unfold materializePool
  dsimp only
  rw [inBandEntries_eq, computeDegradeTail_eq hstrength, ← hband, ← htail]
  rfl

variable (hnodup : ranked.Nodup)

include hnodup

/-- **The band of a pool** is always in order. -/
theorem partOrdered_inBand :
    PartOrdered costBySpec policy (specsAmong (inBand policy) ranked)
      (partOf costBySpec policy (ranked.filter (inBand policy))) := by
  apply partOrdered_partOf (hnodup.filter _)
  · intro x hx
    exact List.mem_filter.mpr (mem_specsAmong hx)
  · intro x hx
    obtain ⟨hin, hp⟩ := List.mem_filter.mp hx
    exact exists_specsAmong hin hp
  · intro x hx y hy heq
    exact bandOf_congr hstrength policy (List.mem_of_mem_filter hx) (List.mem_of_mem_filter hy) heq
  · intro x y hsub _
    exact hsub.trans (firstBy_sublist _ _)
  · intro x hx y hy _ _ hweaker
    rw [bandOf_of_inBand (List.mem_filter.mp hx).2, bandOf_of_inBand (List.mem_filter.mp hy).2]
      at hweaker
    exact absurd hweaker (Weaker.irrefl _)

theorem nodup_members_iff (costBySpec : OrderedMap Text Facts.CostClass)
    (hpreferred : policy.preferred.Nodup) :
    (preferredPrefix policy ++ partOf costBySpec policy (ranked.filter (inBand policy))
        ++ partOf costBySpec policy (lowerSpecs policy ranked)).Nodup
      ↔ SpecsApart policy ranked := by
  have hlower : (partOf costBySpec policy (lowerSpecs policy ranked)).Nodup := by
    rw [(partOf_perm nodup_lowerSpecs).nodup_iff]
    exact List.pairwise_map.mpr (pairwise_lowerSpecs.filter _)
  have hband : (partOf costBySpec policy (ranked.filter (inBand policy))).Nodup
      ↔ SpecsApart policy ranked := nodup_band_iff hnodup
  rw [← hband]
  constructor
  · intro h
    exact h.sublist ((List.sublist_append_right _ _).trans (List.sublist_append_left _ _))
  · intro hband
    apply List.nodup_append.mpr
    refine ⟨List.nodup_append.mpr ⟨hpreferred.filter _, hband, ?_⟩, hlower, ?_⟩
    · rintro s hs t ht rfl
      exact (mem_partOf.mp ht).1 (List.mem_of_mem_filter hs)
    · rintro s hs t ht rfl
      obtain ⟨hout, x, hx, rfl⟩ := mem_partOf.mp ht
      rcases List.mem_append.mp hs with hprefix | hin
      · exact hout (List.mem_of_mem_filter hprefix)
      · obtain ⟨-, y, hy, hspec⟩ := mem_partOf.mp hin
        apply spec_notMem_inBand hstrength (mem_lowerSpecs.mp hx)
        exact List.mem_map.mpr ⟨y, hy, hspec⟩

/-- **When a pool is laid out** as it should be. -/
theorem laidOut_iff (hpreferred : policy.preferred.Nodup) :
    LaidOut costBySpec policy ranked (materializePool ranked costBySpec policy).members
        (materializePool ranked costBySpec policy).degraded
      ↔ SpecsApart policy ranked ∧ BandsInTurn costBySpec policy ranked := by
  rw [materializePool_eq hstrength]
  constructor
  · intro h
    obtain ⟨band, -, -, htail⟩ := h.parts
    exact ⟨(nodup_members_iff hstrength hnodup costBySpec hpreferred).mp h.nodup,
      (partOrdered_inLowerBand_iff hstrength).mp htail⟩
  · rintro ⟨hapart, hturn⟩
    have hmembers :=
      (nodup_members_iff hstrength hnodup costBySpec hpreferred).mpr hapart
    refine ⟨⟨_, rfl, partOrdered_inBand hstrength hnodup,
      (partOrdered_inLowerBand_iff hstrength).mpr hturn⟩, hmembers, ?_, ?_⟩
    · intro s hs
      exact notMem_exclude_of_mem_members hs
    · intro x hx husable hadmitted
      exact List.count_eq_one_of_mem hmembers (spec_mem_members hx husable hadmitted)

end Pool

end LlmRelay.Pools
