import LlmRelay.Ecma.Strings
import Mathlib.Data.List.Perm.Subperm

/-!
# Outbound ids of tool calls

Some providers accept only ids of nine letters and digits, so one pass over a conversation
maps every other id to a digest of it (`openai-request.ts`). An id that is taken is hashed
again with a salt.

## Main definitions

* `strict9`: the id of a digest;
* `ToolCallIds`, `ToolCallIds.map`: the assignment of one pass, and one more id;
* `Spread`: the salts of an id give enough different ids;
* `ToolCallIds.mapAll`, `Maps`: the ids of a whole conversation.

## Main results

* `ToolCallIds.map_spec`: an id that is mapped keeps what is assigned, and no two ids are
  mapped to one;
* `ToolCallIds.map_isSome`: the search for a free id ends;
* `tool_call_ids_mapped`: the ids of a conversation are mapped injectively to nine letters and
  digits, a conforming id that is free is kept, and appended ids change nothing before them.
-/

namespace LlmRelay

open Ecma

/-- The hash of an id: thirty-two bytes of its UTF-8 form. -/
abbrev ToolCallIdDigest :=
  Text → Fin 32 → UInt8

/-- The letters of an outbound id. -/
def BASE62 : Text :=
  text "0123456789ABCDEFGHIJKLMNOPQRSTUVWXYZabcdefghijklmnopqrstuvwxyz"

/-- `STRICT9`: nine letters and digits. -/
def isStrict9 (id : Text) : Bool :=
  id.length = 9 && id.all fun c => BASE62.contains c

/-- The nine-character id of a source under a salt. -/
def strict9 (digest : ToolCallIdDigest) (source : Text) (salt : Nat) : Text :=
  let bytes := digest (if salt = 0 then source else source ++ text "#" ++ Number.natText salt)
  (List.range 9).map fun i => BASE62.getD ((bytes (Fin.ofNat 32 i)).toNat % 62) 0

/-- The assignment of one pass, in order of first appearance. -/
structure ToolCallIds where
  bySource : OrderedMap Text Text
  rewritten : Nat

namespace ToolCallIds

def empty : ToolCallIds :=
  ⟨.empty, 0⟩

/-- The ids that are taken. -/
def taken (ids : ToolCallIds) : List Text :=
  ids.bySource.values

/-- The first id that is free under the salts from `salt` on; absent when `salts` of them are
taken. -/
def free (taken : List Text) (candidate : Nat → Text) : (salts salt : Nat) → Option Text
  | 0, _ => none
  | salts + 1, salt =>
    if taken.contains (candidate salt) then free taken candidate salts (salt + 1)
    else some (candidate salt)

/-- The outbound id of a source. The loop of the source has no bound; here it gives up after
`salts` salts. -/
def map (digest : ToolCallIdDigest) (salts : Nat) (ids : ToolCallIds) (id : Text) :
    Option (Text × ToolCallIds) :=
  match ids.bySource.get? id with
  | some existing => some (existing, ids)
  | none =>
    let out :=
      if isStrict9 id && !ids.taken.contains id then some id
      else free ids.taken (strict9 digest id) salts 0
    out.map fun out =>
      (out, ⟨ids.bySource.set id out, ids.rewritten + if out = id then 0 else 1⟩)

/-- The assignment of `ids` is kept. -/
def Grown (ids ids' : ToolCallIds) : Prop :=
  ∀ id out, ids.bySource.get? id = some out → ids'.bySource.get? id = some out

theorem Grown.refl (ids : ToolCallIds) : Grown ids ids :=
  fun _ _ h => h

theorem Grown.trans {a b c : ToolCallIds} (hab : Grown a b) (hbc : Grown b c) : Grown a c :=
  fun id out h => hbc id out (hab id out h)

/-- No two ids are mapped to one. -/
def Injective (ids : ToolCallIds) : Prop :=
  ∀ id id' out, ids.bySource.get? id = some out → ids.bySource.get? id' = some out → id = id'

variable {taken : List Text} {candidate : Nat → Text} {salt : Nat}

theorem not_mem_of_free {salts : Nat} {out : Text} (h : free taken candidate salts salt = some out) :
    out ∉ taken := by
  induction salts generalizing salt with
  | zero => cases h
  | succ salts ih =>
    rw [free] at h
    split at h
    · exact ih h
    · rename_i hfree
      cases h
      simpa using hfree

theorem isSome_free {salts k : Nat} (hk : k < salts) (hfree : candidate (salt + k) ∉ taken) :
    (free taken candidate salts salt).isSome = true := by
  induction salts generalizing salt k with
  | zero => exact absurd hk (Nat.not_lt_zero k)
  | succ salts ih =>
    rw [free]
    split
    · rename_i htaken
      cases k with
      | zero => exact absurd (by simpa using htaken) hfree
      | succ k =>
        refine ih (Nat.lt_of_succ_lt_succ hk) ?_
        rw [Nat.add_assoc, Nat.add_comm 1 k]
        exact hfree
    · rfl

variable {digest : ToolCallIdDigest} {salts : Nat} {ids ids' : ToolCallIds} {id out : Text}

theorem map_cases (h : map digest salts ids id = some (out, ids')) :
    (ids.bySource.get? id = some out ∧ ids' = ids) ∨
      (ids.bySource.get? id = none ∧ out ∉ ids.taken ∧
        ids'.bySource = ids.bySource.set id out) := by
  unfold map at h
  split at h
  · rename_i existing hfound
    cases h
    exact .inl ⟨hfound, rfl⟩
  · rename_i hmissing
    obtain ⟨out', hout, heq⟩ := Option.map_eq_some_iff.mp h
    cases heq
    refine .inr ⟨hmissing, ?_, rfl⟩
    split at hout
    · rename_i hkept
      cases hout
      simpa using (Bool.and_eq_true_iff.mp hkept).2
    · exact not_mem_of_free hout

/-- **An id that is mapped** keeps what is assigned, and no two ids are mapped to one. -/
theorem map_spec (h : map digest salts ids id = some (out, ids')) :
    Grown ids ids' ∧ ids'.bySource.get? id = some out ∧ (ids.Injective → ids'.Injective) ∧
      ∀ other, (ids'.bySource.get? other).isSome = true →
        other = id ∨ (ids.bySource.get? other).isSome = true := by
  rcases map_cases h with ⟨hfound, rfl⟩ | ⟨hmissing, hfree, hset⟩
  · exact ⟨Grown.refl _, hfound, fun hinj => hinj, fun other hother => .inr hother⟩
  have hget : ∀ other, ids'.bySource.get? other
      = if id = other then some out else ids.bySource.get? other := by
    intro other
    rw [hset, OrderedMap.get?_set]
  have hother : ∀ other out', ids.bySource.get? other = some out' → id ≠ other := by
    rintro other out' hfound rfl
    rw [hmissing] at hfound
    cases hfound
  refine ⟨?_, by rw [hget, if_pos rfl], ?_, ?_⟩
  · intro other out' hfound
    rw [hget, if_neg (hother other out' hfound), hfound]
  · intro hinj a b out' ha hb
    rw [hget] at ha hb
    split at ha <;> split at hb
    · rename_i ha' hb'
      exact ha'.symm.trans hb'
    · -- the new id is not taken by another
      cases ha
      exact absurd (OrderedMap.mem_values_of_get? hb) hfree
    · cases hb
      exact absurd (OrderedMap.mem_values_of_get? ha) hfree
    · exact hinj a b out' ha hb
  · intro other hsome
    rw [hget] at hsome
    split at hsome
    · rename_i heq
      exact .inl heq.symm
    · exact .inr hsome

/-- The salts of every id of a pass give more ids than any other ids of the pass can take. -/
def Spread (digest : ToolCallIdDigest) (salts : Nat) (pass : List Text) : Prop :=
  ∀ id ∈ pass, ∀ taken : List Text, taken.length < pass.length →
    ∃ salt < salts, strict9 digest id salt ∉ taken

/-- **The search for a free id ends.** -/
theorem map_isSome {pass : List Text} (hspread : Spread digest salts pass) (hid : id ∈ pass)
    (hsources : ∀ other, (ids.bySource.get? other).isSome = true → other ∈ pass) :
    (map digest salts ids id).isSome = true := by
  unfold map
  split
  · rfl
  rename_i hmissing
  rw [Option.isSome_map]
  split
  · rfl
  -- the sources so far and this one are different ids of the pass
  have hnodup : (id :: ids.bySource.keys).Nodup := by
    refine List.nodup_cons.mpr ⟨?_, ids.bySource.nodup⟩
    rw [OrderedMap.mem_keys_iff, hmissing]
    exact Bool.false_ne_true
  have hsubset : id :: ids.bySource.keys ⊆ pass := by
    intro other hother
    rcases List.mem_cons.mp hother with rfl | hkey
    · exact hid
    · exact hsources other ((OrderedMap.mem_keys_iff _).mp hkey)
  have hlength : ids.taken.length < pass.length := by
    have hle := (List.Nodup.subperm hnodup hsubset).length_le
    rw [List.length_cons] at hle
    rw [taken, OrderedMap.length_values]
    rw [OrderedMap.keys, List.length_map] at hle
    omega
  obtain ⟨salt, hsalt, hfree⟩ := hspread id hid ids.taken hlength
  exact isSome_free hsalt (by rwa [Nat.zero_add])

/-! ## The ids of a conversation -/

/-- The outbound ids of a list of ids, in its order. -/
def mapAll (digest : ToolCallIdDigest) (salts : Nat) : ToolCallIds → List Text →
    Option (List Text × ToolCallIds)
  | ids, [] => some ([], ids)
  | ids, id :: rest =>
    (map digest salts ids id).bind fun first =>
      (mapAll digest salts first.2 rest).map fun others => (first.1 :: others.1, others.2)

/-- What holds of the assignment of every pass: it is injective, it assigns only ids of nine
letters and digits, and a conforming id is either its own outbound id or that of another. -/
structure Kept (ids : ToolCallIds) : Prop where
  injective : ids.Injective
  strict : ∀ out ∈ ids.taken, isStrict9 out = true
  held : ∀ id out, ids.bySource.get? id = some out → isStrict9 id = true → id ∈ ids.taken

theorem kept_empty : Kept empty where
  injective := fun _ _ _ h => nomatch h
  strict := fun _ h => nomatch h
  held := fun _ _ h => nomatch h

theorem isStrict9_strict9 (digest : ToolCallIdDigest) (source : Text) (salt : Nat) :
    isStrict9 (strict9 digest source salt) = true := by
  rw [isStrict9, Bool.and_eq_true, decide_eq_true_iff, List.all_eq_true]
  refine ⟨by rw [strict9, List.length_map, List.length_range], ?_⟩
  intro c hc
  obtain ⟨i, -, rfl⟩ := List.mem_map.mp hc
  -- a remainder by the number of letters is the place of a letter
  have hplace : ∀ n : Nat, n % 62 < BASE62.length := by
    intro n
    exact Nat.mod_lt n (by decide)
  rw [List.contains_iff_mem, List.getD_eq_getElem?_getD, List.getElem?_eq_getElem (hplace _)]
  exact List.getElem_mem _

theorem candidate_of_free (h : free taken candidate salts salt = some out) :
    ∃ k, out = candidate k := by
  induction salts generalizing salt with
  | zero => cases h
  | succ salts ih =>
    rw [free] at h
    split at h
    · exact ih h
    · cases h
      exact ⟨salt, rfl⟩

variable {more : Nat}

theorem free_mono (h : free taken candidate salts salt = some out)
    (hle : salts ≤ more) : free taken candidate more salt = some out := by
  induction salts generalizing salt more with
  | zero => cases h
  | succ salts ih =>
    obtain ⟨more, rfl⟩ := Nat.exists_eq_add_of_le' (Nat.lt_of_lt_of_le (Nat.succ_pos _) hle)
    rw [free] at h ⊢
    split at h
    · rename_i htaken
      rw [if_pos htaken]
      exact ih h (Nat.le_of_succ_le_succ hle)
    · rename_i hfree
      rw [if_neg hfree]
      exact h

theorem map_unseen (h : map digest salts ids id = some (out, ids'))
    (hmissing : ids.bySource.get? id = none) :
    isStrict9 out = true ∧
      (isStrict9 id = true → id ∉ ids.taken → out = id) := by
  rw [map, hmissing] at h
  obtain ⟨out', hout, heq⟩ := Option.map_eq_some_iff.mp h
  cases heq
  split at hout
  · rename_i hkept
    cases hout
    exact ⟨(Bool.and_eq_true_iff.mp hkept).1, fun _ _ => rfl⟩
  · rename_i hnot
    obtain ⟨k, rfl⟩ := candidate_of_free hout
    refine ⟨isStrict9_strict9 digest id k, fun hstrict hfree => absurd ?_ hnot⟩
    simpa [hstrict] using hfree

theorem map_mono {result : Text × ToolCallIds}
    (h : map digest salts ids id = some result) (hle : salts ≤ more) :
    map digest more ids id = some result := by
  unfold map at h ⊢
  split
  · rename_i hfound
    rw [hfound] at h
    exact h
  · rename_i hmissing
    rw [hmissing] at h
    obtain ⟨out, hout, rfl⟩ := Option.map_eq_some_iff.mp h
    refine Option.map_eq_some_iff.mpr ⟨out, ?_, rfl⟩
    split at hout
    · rename_i hkept
      rw [if_pos hkept]
      exact hout
    · rename_i hnot
      rw [if_neg hnot]
      exact free_mono hout hle

theorem map_kept (h : map digest salts ids id = some (out, ids')) (hkept : Kept ids) :
    Kept ids' := by
  obtain ⟨hgrown, hget, hinj, -⟩ := map_spec h
  rcases map_cases h with ⟨-, rfl⟩ | ⟨hmissing, -, hset⟩
  · exact hkept
  obtain ⟨hstrict, hown⟩ := map_unseen h hmissing
  have htaken : ids'.taken = ids.taken ++ [out] := by
    rw [taken, taken, hset, OrderedMap.values,
      OrderedMap.entries_set_of_none out hmissing, List.map_append]
    rfl
  refine ⟨hinj hkept.injective, ?_, ?_⟩
  · intro other hother
    rw [htaken, List.mem_append, List.mem_singleton] at hother
    rcases hother with hold | rfl
    · exact hkept.strict other hold
    · exact hstrict
  · intro other out' hother hconforms
    rw [htaken, List.mem_append, List.mem_singleton]
    rw [hset, OrderedMap.get?_set] at hother
    split at hother
    · -- the new id: kept where it is free
      rename_i heq
      subst heq
      by_cases hheld : id ∈ ids.taken
      · exact .inl hheld
      · exact .inr (hown hconforms hheld).symm
    · exact .inl (hkept.held other out' hother hconforms)

theorem map_own (h : map digest salts ids id = some (out, ids')) (hkept : Kept ids)
    (hconforms : isStrict9 id = true) (hfree : id ∉ ids.taken) : out = id := by
  cases hfound : ids.bySource.get? id with
  | none => exact (map_unseen h hfound).2 hconforms hfree
  | some out' => exact absurd (hkept.held id out' hfound hconforms) hfree

section Conversation

variable {pass before after outs : List Text}

variable {result : List Text × ToolCallIds}

theorem mapAll_cons_eq_some {rest : List Text} :
    mapAll digest salts ids (id :: rest) = some result ↔
      ∃ out ids' outs ids'', map digest salts ids id = some (out, ids') ∧
        mapAll digest salts ids' rest = some (outs, ids'') ∧ result = (out :: outs, ids'') := by
  rw [mapAll, Option.bind_eq_some_iff]
  constructor
  · rintro ⟨⟨out, ids'⟩, hmap, hrest⟩
    obtain ⟨⟨outs, ids''⟩, hall, rfl⟩ := Option.map_eq_some_iff.mp hrest
    exact ⟨out, ids', outs, ids'', hmap, hall, rfl⟩
  · rintro ⟨out, ids', outs, ids'', hmap, hall, rfl⟩
    exact ⟨(out, ids'), hmap, Option.map_eq_some_iff.mpr ⟨(outs, ids''), hall, rfl⟩⟩

theorem mapAll_append_eq_some :
    mapAll digest salts ids (before ++ after) = some result ↔
      ∃ outs ids' outs' ids'', mapAll digest salts ids before = some (outs, ids') ∧
        mapAll digest salts ids' after = some (outs', ids'') ∧
        result = (outs ++ outs', ids'') := by
  induction before generalizing ids result with
  | nil =>
    constructor
    · intro h
      exact ⟨[], ids, result.1, result.2, rfl, h, rfl⟩
    · rintro ⟨outs, ids', outs', ids'', hnil, hafter, rfl⟩
      cases hnil
      exact hafter
  | cons id rest ih =>
    rw [List.cons_append, mapAll_cons_eq_some]
    constructor
    · rintro ⟨out, ids', outs, ids'', hmap, hrest, rfl⟩
      obtain ⟨outs₁, ids₁, outs₂, ids₂, hbefore, hafter, heq⟩ := ih.mp hrest
      cases heq
      exact ⟨out :: outs₁, ids₁, outs₂, ids'',
        mapAll_cons_eq_some.mpr ⟨out, ids', outs₁, ids₁, hmap, hbefore, rfl⟩, hafter, rfl⟩
    · rintro ⟨outs₁, ids₁, outs₂, ids₂, hbefore, hafter, rfl⟩
      obtain ⟨out, ids', outs, ids'', hmap, hrest, heq⟩ := mapAll_cons_eq_some.mp hbefore
      cases heq
      exact ⟨out, ids', outs ++ outs₂, ids₂, hmap,
        ih.mpr ⟨outs, ids₁, outs₂, ids₂, hrest, hafter, rfl⟩, rfl⟩

/-- **A pass** keeps what is assigned and what holds of every assignment, and assigns each of
its ids the outbound id it gives out. -/
theorem mapAll_kept (h : mapAll digest salts ids pass = some (outs, ids')) (hkept : Kept ids) :
    Grown ids ids' ∧ Kept ids' ∧
      List.Forall₂ (fun id out => ids'.bySource.get? id = some out) pass outs := by
  induction pass generalizing ids outs with
  | nil =>
    cases h
    exact ⟨Grown.refl _, hkept, .nil⟩
  | cons id rest ih =>
    obtain ⟨out, ids₁, outs₁, ids₂, hmap, hrest, heq⟩ := mapAll_cons_eq_some.mp h
    cases heq
    obtain ⟨hgrown, hget, -, -⟩ := map_spec hmap
    obtain ⟨hgrown', hkept', hall⟩ := ih hrest (map_kept hmap hkept)
    exact ⟨hgrown.trans hgrown', hkept', .cons (hgrown' id out hget) hall⟩

theorem taken_mapAll (h : mapAll digest salts ids pass = some (outs, ids'))
    (htaken : out ∈ ids'.taken) : out ∈ ids.taken ∨ out ∈ outs := by
  induction pass generalizing ids outs with
  | nil =>
    cases h
    exact .inl htaken
  | cons id rest ih =>
    obtain ⟨out₁, ids₁, outs₁, ids₂, hmap, hrest, heq⟩ := mapAll_cons_eq_some.mp h
    cases heq
    rcases ih hrest with hold | hnew
    · rcases map_cases hmap with ⟨-, rfl⟩ | ⟨-, -, hset⟩
      · exact .inl hold
      · rw [taken, hset] at hold
        rcases OrderedMap.mem_values_set hold with rfl | hold
        · exact .inr List.mem_cons_self
        · exact .inl hold
    · exact .inr (List.mem_cons_of_mem _ hnew)

theorem mapAll_mono (h : mapAll digest salts ids pass = some result)
    (hle : salts ≤ more) : mapAll digest more ids pass = some result := by
  induction pass generalizing ids result with
  | nil => exact h
  | cons id rest ih =>
    obtain ⟨out, ids', outs, ids'', hmap, hrest, rfl⟩ := mapAll_cons_eq_some.mp h
    exact mapAll_cons_eq_some.mpr
      ⟨out, ids', outs, ids'', map_mono hmap hle, ih hrest, rfl⟩

theorem mapAll_exists (hspread : Spread digest salts pass) (hsub : after ⊆ pass)
    (hsources : ∀ other, (ids.bySource.get? other).isSome = true → other ∈ pass) :
    ∃ result, mapAll digest salts ids after = some result := by
  induction after generalizing ids with
  | nil => exact ⟨([], ids), rfl⟩
  | cons id rest ih =>
    have hid : id ∈ pass := hsub List.mem_cons_self
    obtain ⟨⟨out, ids'⟩, hmap⟩ :=
      Option.isSome_iff_exists.mp (map_isSome hspread hid hsources)
    obtain ⟨-, -, -, honly⟩ := map_spec hmap
    have hsources' : ∀ other, (ids'.bySource.get? other).isSome = true → other ∈ pass := by
      intro other hother
      rcases honly other hother with rfl | hold
      · exact hid
      · exact hsources other hold
    obtain ⟨⟨outs, ids''⟩, hrest⟩ :=
      ih (fun other hother => hsub (List.mem_cons_of_mem _ hother)) hsources'
    exact ⟨(out :: outs, ids''), mapAll_cons_eq_some.mpr
      ⟨out, ids', outs, ids'', hmap, hrest, rfl⟩⟩

end Conversation

/-! ## A digest with fresh values -/

/-- Whatever ids fewer than the pass has are taken, some salt gives an id that is not. -/
def Fresh (digest : ToolCallIdDigest) (pass : List Text) : Prop :=
  ∀ id ∈ pass, ∀ taken : List Text, taken.length < pass.length →
    ∃ salt, strict9 digest id salt ∉ taken

theorem exists_values {n : Nat}
    (hfresh : ∀ taken : List Text, taken.length < n → ∃ salt, candidate salt ∉ taken) :
    ∀ k ≤ n, ∃ (salts : Nat) (values : List Text), values.Nodup ∧ values.length = k ∧
      ∀ v ∈ values, ∃ salt < salts, candidate salt = v := by
  intro k
  induction k with
  | zero => exact fun _ => ⟨0, [], List.nodup_nil, rfl, fun _ h => nomatch h⟩
  | succ k ih =>
    intro hk
    obtain ⟨salts, values, hnodup, hlength, hvalues⟩ := ih (Nat.le_of_succ_le hk)
    obtain ⟨salt, hsalt⟩ := hfresh values (by omega)
    refine ⟨max salts (salt + 1), candidate salt :: values,
      List.nodup_cons.mpr ⟨hsalt, hnodup⟩, by rw [List.length_cons, hlength], ?_⟩
    intro v hv
    rcases List.mem_cons.mp hv with rfl | hold
    · exact ⟨salt, by omega, rfl⟩
    · obtain ⟨salt', hlt, heq⟩ := hvalues v hold
      exact ⟨salt', by omega, heq⟩

theorem exists_salts {n : Nat}
    (hfresh : ∀ taken : List Text, taken.length < n → ∃ salt, candidate salt ∉ taken) :
    ∃ salts, ∀ taken : List Text, taken.length < n → ∃ salt < salts, candidate salt ∉ taken := by
  obtain ⟨salts, values, hnodup, hlength, hvalues⟩ := exists_values hfresh n le_rfl
  refine ⟨salts, fun taken htaken => ?_⟩
  by_contra hnone
  -- then all the values are taken, and there are more of them
  have hsub : values ⊆ taken := by
    intro v hv
    obtain ⟨salt, hlt, rfl⟩ := hvalues v hv
    by_contra hnot
    exact hnone ⟨salt, hlt, hnot⟩
  have hle := (hnodup.subperm hsub).length_le
  omega

/-- **Boundedly many salts are enough for a pass.** -/
theorem spread_of_fresh {pass : List Text} (hfresh : Fresh digest pass) :
    ∃ salts, Spread digest salts pass := by
  have hlist : ∀ l ⊆ pass, ∃ salts, ∀ id ∈ l, ∀ taken : List Text,
      taken.length < pass.length → ∃ salt < salts, strict9 digest id salt ∉ taken := by
    intro l
    induction l with
    | nil => exact fun _ => ⟨0, fun _ h => nomatch h⟩
    | cons id rest ih =>
      intro hsub
      obtain ⟨salts₁, h₁⟩ := exists_salts (hfresh id (hsub List.mem_cons_self))
      obtain ⟨salts₂, h₂⟩ := ih fun other hother => hsub (List.mem_cons_of_mem _ hother)
      refine ⟨max salts₁ salts₂, fun other hother taken htaken => ?_⟩
      rcases List.mem_cons.mp hother with rfl | hrest
      · obtain ⟨salt, hlt, hsalt⟩ := h₁ taken htaken
        exact ⟨salt, lt_max_of_lt_left hlt, hsalt⟩
      · obtain ⟨salt, hlt, hsalt⟩ := h₂ other hrest taken htaken
        exact ⟨salt, lt_max_of_lt_right hlt, hsalt⟩
  exact hlist pass (List.Subset.refl pass)

/-- The ids of a conversation are mapped to `outs`: the search for free ids ends, whatever the
bound on it from some bound on. -/
def Maps (digest : ToolCallIdDigest) (pass outs : List Text) : Prop :=
  ∃ salts, ∀ more, salts ≤ more → (mapAll digest more empty pass).map Prod.fst = some outs

section Maps

variable {pass before after outs : List Text}

theorem Maps.run (h : Maps digest pass outs) :
    ∃ salts ids, mapAll digest salts empty pass = some (outs, ids) := by
  obtain ⟨salts, hsalts⟩ := h
  obtain ⟨⟨outs', ids⟩, hrun, rfl⟩ := Option.map_eq_some_iff.mp (hsalts salts le_rfl)
  exact ⟨salts, ids, hrun⟩

theorem exists_maps (hfresh : Fresh digest pass) : ∃ outs, Maps digest pass outs := by
  obtain ⟨salts, hspread⟩ := spread_of_fresh hfresh
  have hnone : ∀ other, (empty.bySource.get? other).isSome = true → other ∈ pass := by
    intro other hother
    cases hother
  obtain ⟨⟨outs, ids⟩, hrun⟩ := mapAll_exists hspread (List.Subset.refl pass) hnone
  refine ⟨outs, salts, fun more hle => ?_⟩
  rw [mapAll_mono hrun hle, Option.map_some]

/-- The mapped ids of a prefix do not depend on what follows. -/
theorem Maps.take (h : Maps digest (before ++ after) outs) :
    Maps digest before (outs.take before.length) := by
  obtain ⟨salts, hsalts⟩ := h
  refine ⟨salts, fun more hle => ?_⟩
  obtain ⟨⟨outs', ids⟩, hrun, rfl⟩ := Option.map_eq_some_iff.mp (hsalts more hle)
  obtain ⟨outs₁, ids₁, outs₂, ids₂, hbefore, -, heq⟩ := mapAll_append_eq_some.mp hrun
  cases heq
  have hlength := (mapAll_kept hbefore kept_empty).2.2.length_eq
  rw [hbefore, Option.map_some, hlength, List.take_left]

/-- Two ids are mapped to one exactly where they are one. -/
theorem Maps.injective (h : Maps digest pass outs) {i j : Nat} (hi : i < pass.length)
    (hj : j < pass.length) : outs[i]? = outs[j]? ↔ pass[i]? = pass[j]? := by
  obtain ⟨salts, ids, hrun⟩ := h.run
  obtain ⟨-, hkept, hall⟩ := mapAll_kept hrun kept_empty
  obtain ⟨hlength, hget⟩ := List.forall₂_iff_get.mp hall
  have hassigned : ∀ k, k < pass.length → ∃ id out, pass[k]? = some id ∧ outs[k]? = some out ∧
      ids.bySource.get? id = some out := by
    intro k hk
    have hk' : k < outs.length := hlength ▸ hk
    exact ⟨pass[k], outs[k], List.getElem?_eq_getElem hk, List.getElem?_eq_getElem hk',
      hget k hk hk'⟩
  obtain ⟨a, out, ha, hout, hassign⟩ := hassigned i hi
  obtain ⟨b, out', hb, hout', hassign'⟩ := hassigned j hj
  rw [ha, hb, hout, hout', Option.some.injEq, Option.some.injEq]
  constructor
  · rintro rfl
    exact hkept.injective a b out hassign hassign'
  · rintro rfl
    exact Option.some.inj (hassign.symm.trans hassign')

theorem Maps.own (h : Maps digest (before ++ id :: after) outs) (hconforms : isStrict9 id = true)
    (hfree : id ∉ outs.take before.length) : outs[before.length]? = some id := by
  obtain ⟨salts, ids, hrun⟩ := h.run
  obtain ⟨outs₁, ids₁, outs₂, ids₂, hbefore, hafter, heq⟩ := mapAll_append_eq_some.mp hrun
  cases heq
  obtain ⟨-, hkept, hall⟩ := mapAll_kept hbefore kept_empty
  have hlength := hall.length_eq
  rw [hlength, List.take_left] at hfree
  -- what is taken at this point was given out before it
  have huntaken : id ∉ ids₁.taken := by
    intro htaken
    rcases taken_mapAll hbefore htaken with hnone | hgiven
    · cases hnone
    · exact hfree hgiven
  obtain ⟨out, ids₃, outs₃, ids₄, hmap, -, heq⟩ := mapAll_cons_eq_some.mp hafter
  cases heq
  rw [map_own hmap hkept hconforms huntaken, hlength, List.getElem?_append_right le_rfl,
    Nat.sub_self]
  rfl

end Maps

end ToolCallIds

/-- **The outbound ids of a conversation**, under a digest with fresh values: every id is
mapped, to nine letters and digits, and two ids to one only where they are one; a conforming
id that is free is kept; and the ids of a prefix are mapped as without what follows. -/
theorem tool_call_ids_mapped {digest : ToolCallIdDigest} {pass : List Text}
    (hfresh : ToolCallIds.Fresh digest pass) :
    (∃ outs, ToolCallIds.Maps digest pass outs) ∧
      ∀ outs, ToolCallIds.Maps digest pass outs →
        outs.length = pass.length ∧
        (∀ i j, i < pass.length → j < pass.length →
          (outs[i]? = outs[j]? ↔ pass[i]? = pass[j]?)) ∧
        (∀ out ∈ outs, isStrict9 out = true) ∧
        (∀ before id after, pass = before ++ id :: after → isStrict9 id = true →
          id ∉ outs.take before.length → outs[before.length]? = some id) ∧
        ∀ before after, pass = before ++ after →
          ToolCallIds.Maps digest before (outs.take before.length) := by
  refine ⟨ToolCallIds.exists_maps hfresh, fun outs hmaps => ?_⟩
  obtain ⟨salts, ids, hrun⟩ := hmaps.run
  obtain ⟨-, hkept, hall⟩ := ToolCallIds.mapAll_kept hrun ToolCallIds.kept_empty
  refine ⟨hall.length_eq.symm, fun i j hi hj => hmaps.injective hi hj, ?_, ?_, ?_⟩
  · intro out hout
    -- every id that is given out is taken
    obtain ⟨k, hk, rfl⟩ := List.mem_iff_getElem.mp hout
    obtain ⟨hlength, hget⟩ := List.forall₂_iff_get.mp hall
    exact hkept.strict _ (OrderedMap.mem_values_of_get? (hget k (hlength ▸ hk) hk))
  · rintro before id after rfl hconforms hfree
    exact hmaps.own hconforms hfree
  · rintro before after rfl
    exact hmaps.take

/-- A digest of the last bytes of an id. -/
def lastBytesDigest : ToolCallIdDigest :=
  fun source i => (source.reverse.getD i.val 0).toUInt8

theorem tool_call_ids_mapped_pair :
    ToolCallIds.Fresh lastBytesDigest [text "call_1", text "Abc123xyz"] ∧
      ∃ outs, ToolCallIds.Maps lastBytesDigest [text "call_1", text "Abc123xyz"] outs := by
  have hfresh : ToolCallIds.Fresh lastBytesDigest [text "call_1", text "Abc123xyz"] := by
    have hsalted : ∀ id ∈ [text "call_1", text "Abc123xyz"],
        strict9 lastBytesDigest id 0 ≠ strict9 lastBytesDigest id 1 := by decide +kernel
    intro id hid taken htaken
    by_cases hfirst : strict9 lastBytesDigest id 0 ∈ taken
    · -- one id at most is taken, so the first salt's is the only one
      refine ⟨1, fun hsecond => ?_⟩
      match taken, htaken, hfirst, hsecond with
      | [other], _, hfirst, hsecond =>
        exact hsalted id hid
          ((List.mem_singleton.mp hfirst).trans (List.mem_singleton.mp hsecond).symm)
    · exact ⟨0, hfirst⟩
  exact ⟨hfresh, (tool_call_ids_mapped hfresh).1⟩

end LlmRelay
