import LlmRelay.Dialects.ChatRecovery
import LlmRelay.Ecma.JsonText
import Mathlib.Data.Finset.Union
import Mathlib.Order.Interval.Finset.Nat

/-!
# Unique ids of tool calls

Some backends state ids that recur in a conversation, so the ids of a response are made unique
against those of the request (`tool-use-ids.ts`). An id that is taken gets a suffix with the
smallest number that is free, and every id of a response is taken for the ids after it.

## Main definitions

* `relayId`, `firstFree`, `uniqueToolUseId`: the candidates of an id, the search, and the choice;
* `ToolUseIdMinter`, `mint`, `mintAll`: the taken ids of a response, one more id, and a sequence;
* `MintedFrom`: what the choice for an id is;
* `toolUseId?`, `rewriteToolUseIds`: the id of a block, and the rewriting of a content array.

## Main results

* `firstFree_spec`, `uniqueToolUseId_spec`: the search ends at the first free candidate;
* `mintAll_spec`, `nodup_mintAll`: what a sequence of ids is rewritten to;
* `toolUseIds_rewriteToolUseIds`: the ids of a rewritten content array.
-/

namespace LlmRelay

open Ecma

/-! ## The search -/

/-- ``${id}_relay${k}``. -/
def relayId (id : Text) (k : Nat) : Text :=
  id ++ text "_relay" ++ Number.natText k

variable (id : Text)

theorem relayId_injective : Function.Injective (relayId id) :=
  fun _ _ h => Number.natText_injective (List.append_cancel_left h)

theorem relayId_ne (k : Nat) : relayId id k ≠ id := by
  intro h
  have hlength := congrArg List.length h
  have hsuffix : (text "_relay").length = 6 := rfl
  rw [relayId, List.length_append, List.length_append] at hlength
  omega

open Classical in
/-- The first free candidate from `k` on. The loop of the source has no bound: it ends because
fewer and fewer taken ids are candidates. -/
def firstFree (id : Text) (taken : Finset Text) (k : Nat) : Text :=
  if relayId id k ∈ taken then firstFree id taken (k + 1) else relayId id k
termination_by (taken.filter fun t => ∃ j, k ≤ j ∧ t = relayId id j).card
decreasing_by
  refine Finset.card_lt_card (Finset.ssubset_iff_of_subset ?_ |>.mpr ?_)
  · intro t ht
    obtain ⟨hmem, j, hj, rfl⟩ := Finset.mem_filter.mp ht
    exact Finset.mem_filter.mpr ⟨hmem, j, by omega, rfl⟩
  · rename_i htaken
    refine ⟨relayId id k, Finset.mem_filter.mpr ⟨htaken, k, le_rfl, rfl⟩, fun hmem => ?_⟩
    obtain ⟨-, j, hj, heq⟩ := Finset.mem_filter.mp hmem
    have hk := relayId_injective id heq
    omega

/-- **The search** ends at the first free candidate. -/
theorem firstFree_spec (taken : Finset Text) (k : Nat) :
    ∃ j, k ≤ j ∧ firstFree id taken k = relayId id j ∧ relayId id j ∉ taken ∧
      ∀ i, k ≤ i → i < j → relayId id i ∈ taken := by
  induction k using firstFree.induct id taken with
  | case1 k htaken ih =>
    obtain ⟨j, hj, heq, hfree, hbefore⟩ := ih
    refine ⟨j, by omega, by rw [firstFree, if_pos htaken, heq], hfree, fun i hi hij => ?_⟩
    by_cases hik : i = k
    · rw [hik]
      exact htaken
    · exact hbefore i (by omega) hij
  | case2 k hfree =>
    refine ⟨k, le_rfl, by rw [firstFree, if_neg hfree], hfree, fun i hi hik => ?_⟩
    omega

/-- `uniqueToolUseId`: the id when nothing has claimed it, else its first free candidate. -/
def uniqueToolUseId (id : Text) (taken : Finset Text) : Text :=
  if id ∉ taken then id else firstFree id taken 1

/-- The id is free and kept, or it is taken and its smallest free candidate stands for it. As
many candidates as there are taken ids are enough. -/
def MintedFrom (taken : Finset Text) (id out : Text) : Prop :=
  (id ∉ taken ∧ out = id) ∨
    (id ∈ taken ∧ ∃ k, 1 ≤ k ∧ k ≤ taken.card ∧ out = relayId id k ∧ out ∉ taken ∧
      ∀ j, 1 ≤ j → j < k → relayId id j ∈ taken)

theorem MintedFrom.not_mem {taken : Finset Text} {id out : Text} (h : MintedFrom taken id out) :
    out ∉ taken := by
  rcases h with ⟨hfree, rfl⟩ | ⟨-, k, -, -, -, hfree, -⟩
  · exact hfree
  · exact hfree

theorem uniqueToolUseId_spec (taken : Finset Text) :
    MintedFrom taken id (uniqueToolUseId id taken) := by
  rw [uniqueToolUseId]
  split
  · rename_i hfree
    exact .inl ⟨hfree, rfl⟩
  · rename_i htaken
    rw [not_not] at htaken
    obtain ⟨k, hk, heq, hfree, hbefore⟩ := firstFree_spec id taken 1
    refine .inr ⟨htaken, k, hk, ?_, heq, heq ▸ hfree, hbefore⟩
    -- the id and the candidates before the free one are different taken ids
    have hcandidates : (Finset.Ico 1 k).image (relayId id) ⊆ taken.erase id := by
      intro t ht
      obtain ⟨j, hj, rfl⟩ := Finset.mem_image.mp ht
      rw [Finset.mem_Ico] at hj
      exact Finset.mem_erase.mpr ⟨relayId_ne id j, hbefore j hj.1 hj.2⟩
    have hcard := Finset.card_le_card hcandidates
    rw [Finset.card_image_of_injective _ (relayId_injective id), Nat.card_Ico,
      Finset.card_erase_of_mem htaken] at hcard
    have hpos : 0 < taken.card := Finset.card_pos.mpr ⟨id, htaken⟩
    omega

/-! ## Minting -/

/-- The ids that are taken while a response is rewritten, and how many ids were changed. -/
structure ToolUseIdMinter where
  taken : Finset Text
  count : Nat

namespace ToolUseIdMinter

def new (taken : Finset Text) : ToolUseIdMinter :=
  ⟨taken, 0⟩

/-- The id for `id`, which is taken from now on. -/
def mint (m : ToolUseIdMinter) (id : Text) : Text × ToolUseIdMinter :=
  let next := uniqueToolUseId id m.taken
  (next, ⟨insert next m.taken, m.count + if next ≠ id then 1 else 0⟩)

/-- The ids for a sequence of ids, one after the other. -/
def mintAll (m : ToolUseIdMinter) : List Text → List Text
  | [] => []
  | id :: ids => (m.mint id).1 :: (m.mint id).2.mintAll ids

variable (m : ToolUseIdMinter)

@[simp] theorem mint_taken :
    (m.mint id).2.taken = insert (m.mint id).1 m.taken := rfl

theorem mint_spec : MintedFrom m.taken id (m.mint id).1 :=
  uniqueToolUseId_spec id m.taken

@[simp] theorem length_mintAll (ids : List Text) : (m.mintAll ids).length = ids.length := by
  induction ids generalizing m with
  | nil => rfl
  | cons id ids ih => rw [mintAll, List.length_cons, ih, List.length_cons]

theorem not_mem_of_mem_mintAll {m : ToolUseIdMinter} {ids : List Text} {out : Text}
    (h : out ∈ m.mintAll ids) : out ∉ m.taken := by
  induction ids generalizing m with
  | nil => cases h
  | cons id ids ih =>
    rcases List.mem_cons.mp h with rfl | hrest
    · exact (m.mint_spec id).not_mem
    · have hlater := ih hrest
      rw [mint_taken, Finset.mem_insert, not_or] at hlater
      exact hlater.2

/-- **The ids of a response** are pairwise distinct. -/
theorem nodup_mintAll (ids : List Text) : (m.mintAll ids).Nodup := by
  induction ids generalizing m with
  | nil => exact List.nodup_nil
  | cons id ids ih =>
    rw [mintAll, List.nodup_cons]
    refine ⟨fun hmem => ?_, ih _⟩
    exact not_mem_of_mem_mintAll hmem (Finset.mem_insert_self _ _)

/-- **Each id** is minted from the ids of the conversation and of the response so far. -/
theorem mintAll_spec (ids : List Text) {i : Nat} {id out : Text}
    (hid : ids[i]? = some id) (hout : (m.mintAll ids)[i]? = some out) :
    MintedFrom (m.taken ∪ ((m.mintAll ids).take i).toFinset) id out := by
  induction ids generalizing m i with
  | nil => cases hid
  | cons id' ids ih =>
    rw [mintAll] at hout ⊢
    cases i with
    | zero =>
      cases hid
      cases hout
      simpa using m.mint_spec id
    | succ i =>
      have hlater := ih (m.mint id').2 hid hout
      rwa [List.take_succ_cons, List.toFinset_cons, Finset.union_insert, ← Finset.insert_union]

end ToolUseIdMinter

/-! ## Content blocks -/

/-- The id of a `tool_use` block; absent for the other blocks. -/
def toolUseId? (block : Json) : Option Text :=
  if Json.string? (block.get? (text "type")) = some (text "tool_use") then
    Json.string? (block.get? (text "id"))
  else none

/-- The ids of a content array, in order. -/
def toolUseIds (blocks : List Json) : List Text :=
  blocks.filterMap toolUseId?

/-- A rewritten content array. -/
structure ToolUseIdRewrite where
  content : List Json
  rewritten : Nat
  map : OrderedMap Text Text

/-- The blocks with minted ids, and the minter and the changes after them. -/
def rewriteBlocks (m : ToolUseIdMinter) (map : OrderedMap Text Text) :
    List Json → List Json × ToolUseIdMinter × OrderedMap Text Text
  | [] => ([], m, map)
  | block :: rest =>
    match toolUseId? block with
    | none =>
      let out := rewriteBlocks m map rest
      (block :: out.1, out.2)
    | some id =>
      let minted := m.mint id
      if minted.1 = id then
        let out := rewriteBlocks minted.2 map rest
        (block :: out.1, out.2)
      else
        let out := rewriteBlocks minted.2 (map.set id minted.1) rest
        (withField block (text "id") (.str minted.1) :: out.1, out.2)

/-- `rewriteToolUseIds`: the content is as it came when no id was changed. -/
def rewriteToolUseIds (content : Option Json) (taken : Finset Text) : ToolUseIdRewrite :=
  let blocks := (Json.array? content).getD []
  let out := rewriteBlocks (.new taken) .empty blocks
  ⟨if 0 < out.2.1.count then out.1 else blocks, out.2.1.count, out.2.2⟩

theorem toolUseId?_eq_some_iff {block : Json} {id : Text} :
    toolUseId? block = some id ↔
      block.get? (text "type") = some (.str (text "tool_use")) ∧
        block.get? (text "id") = some (.str id) := by
  rw [toolUseId?]
  split
  · rename_i htype
    rw [Json.string?_eq_some_iff] at htype
    rw [Json.string?_eq_some_iff, htype, eq_self_iff_true, true_and]
  · rename_i htype
    rw [Json.string?_eq_some_iff] at htype
    simp only [htype, false_and, reduceCtorEq]

theorem toolUseId?_withField {block : Json} {id : Text} (h : toolUseId? block = some id)
    (out : Text) : toolUseId? (withField block (text "id") (.str out)) = some out := by
  have hkeys : ¬ text "id" = text "type" := by decide
  obtain ⟨htype, -⟩ := toolUseId?_eq_some_iff.mp h
  rw [toolUseId?_eq_some_iff, get?_withField, ← get?_eq_lookupEntry, get?_withField]
  exact ⟨htype, rfl⟩

theorem toolUseIds_rewriteBlocks (m : ToolUseIdMinter) (map : OrderedMap Text Text)
    (blocks : List Json) :
    toolUseIds (rewriteBlocks m map blocks).1 = m.mintAll (toolUseIds blocks) := by
  induction blocks generalizing m map with
  | nil => rfl
  | cons block rest ih =>
    rw [rewriteBlocks]
    split
    · rename_i hnone
      show toolUseIds (block :: _) = m.mintAll (toolUseIds (block :: rest))
      rw [toolUseIds, toolUseIds, List.filterMap_cons_none hnone, List.filterMap_cons_none hnone]
      exact ih m map
    · rename_i id hid
      have hids : toolUseIds (block :: rest) = id :: toolUseIds rest :=
        List.filterMap_cons_some hid
      rw [hids, ToolUseIdMinter.mintAll]
      dsimp only
      split
      · rename_i hkept
        show toolUseIds (block :: _) = _
        rw [toolUseIds, List.filterMap_cons_some hid, hkept]
        exact congrArg (id :: ·) (ih _ map)
      · show toolUseIds (withField block _ _ :: _) = _
        rw [toolUseIds, List.filterMap_cons_some (toolUseId?_withField hid _)]
        exact congrArg (_ :: ·) (ih _ _)

theorem count_le_rewriteBlocks (m : ToolUseIdMinter) (map : OrderedMap Text Text)
    (blocks : List Json) : m.count ≤ (rewriteBlocks m map blocks).2.1.count := by
  induction blocks generalizing m map with
  | nil => exact le_rfl
  | cons block rest ih =>
    rw [rewriteBlocks]
    split
    · exact ih m map
    · rename_i id _
      have hmint : m.count ≤ (m.mint id).2.count := Nat.le_add_right _ _
      dsimp only
      split
      · exact hmint.trans (ih _ _)
      · exact hmint.trans (ih _ _)

theorem rewriteBlocks_of_count {m : ToolUseIdMinter} {map : OrderedMap Text Text}
    {blocks : List Json} (h : (rewriteBlocks m map blocks).2.1.count = m.count) :
    (rewriteBlocks m map blocks).1 = blocks := by
  induction blocks generalizing m map with
  | nil => rfl
  | cons block rest ih =>
    rw [rewriteBlocks] at h ⊢
    split at h
    · rename_i hnone
      exact congrArg (block :: ·) (ih h)
    · rename_i id hid
      dsimp only at h ⊢
      split at h
      · rename_i hkept
        have hcount : (m.mint id).2.count = m.count := by
          show m.count + (if (m.mint id).1 ≠ id then 1 else 0) = m.count
          rw [if_neg (not_not.mpr hkept), Nat.add_zero]
        rw [if_pos hkept]
        exact congrArg (block :: ·) (ih (h.trans hcount.symm))
      · rename_i hchanged
        -- a changed id is counted
        have hcount : (m.mint id).2.count = m.count + 1 := by
          show m.count + (if (m.mint id).1 ≠ id then 1 else 0) = m.count + 1
          rw [if_pos hchanged]
        have hle := count_le_rewriteBlocks (m.mint id).2 (map.set id (m.mint id).1) rest
        rw [h] at hle
        omega

/-- **The ids of a rewritten content array** are those minted for its ids. -/
theorem toolUseIds_rewriteToolUseIds (blocks : List Json) (taken : Finset Text) :
    toolUseIds (rewriteToolUseIds (some (.arr blocks)) taken).content
      = (ToolUseIdMinter.new taken).mintAll (toolUseIds blocks) := by
  have hids := toolUseIds_rewriteBlocks (.new taken) .empty blocks
  show toolUseIds (if 0 < _ then _ else blocks) = _
  split
  · exact hids
  · rename_i hzero
    rw [← hids, rewriteBlocks_of_count]
    exact Nat.eq_zero_of_not_pos hzero

end LlmRelay
