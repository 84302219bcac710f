import LlmRelay.Refusals.StoreProcesses

/-!
# Reviewed verdicts in a store

A verdict is kept where the store has it, or a newer one on its signature. A store whose rows are
sound is read as it was written, a merge keeps what is on disk, and a call that is timely keeps
what the store had.

## Main definitions

* `InterpretationStore.Holds`, `KeptBy`: what a store holds, and the order of stores;
* `WellFormed`, `Rows`, `Sound`: the signatures, and what the rows of a store satisfy;
* `Call.OnSignature`, `Call.Timely`: calls on well formed signatures, and newer verdicts.

## Main results

* `keptBy_readStoreFile`, `readStoreFile_keptBy`: a read changes no verdict;
* `keptBy_mergeStores`, `holds_mergeStores`: what a merge keeps;
* `Call.run_cases`: what a call changes;
* `Call.keptBy_run`, `Call.holds_run`, `Call.rows_run`: what a call keeps, and gives.
-/

namespace LlmRelay.Refusals

open Ecma

/-! ## What a store holds -/

/-- The other acceptance is this one, or newer. -/
def Interpretation.SupersededBy (entry entry' : Interpretation) : Prop :=
  entry' = entry ∨ entry.acceptance < entry'.acceptance

theorem Interpretation.SupersededBy.refl (entry : Interpretation) : entry.SupersededBy entry :=
  .inl rfl

theorem Interpretation.SupersededBy.trans {a b c : Interpretation} (h : a.SupersededBy b)
    (h' : b.SupersededBy c) : a.SupersededBy c := by
  rcases h with rfl | hab
  · exact h'
  · rcases h' with rfl | hbc
    · exact .inr hab
    · exact .inr (hab.trans hbc)

namespace InterpretationStore

/-- The store has the verdict, or a newer one on its signature. -/
def Holds (store : InterpretationStore) : ReviewedVerdict → Prop
  | .accepted signature entry =>
    ∃ entry', store.confirmed.get? signature = some entry' ∧ entry.SupersededBy entry'
  | .rejected signature at_ =>
    ∃ entry, store.ignored.get? signature = some entry ∧ at_ ≤ entry.at_

/-- The other store has every verdict of this one, or a newer one. -/
structure KeptBy (store store' : InterpretationStore) : Prop where
  confirmed : ∀ signature entry, store.confirmed.get? signature = some entry →
    ∃ entry', store'.confirmed.get? signature = some entry' ∧ entry.SupersededBy entry'
  ignored : ∀ signature entry, store.ignored.get? signature = some entry →
    ∃ entry', store'.ignored.get? signature = some entry' ∧ entry.at_ ≤ entry'.at_

namespace KeptBy

theorem refl (store : InterpretationStore) : store.KeptBy store where
  confirmed := fun _ entry h => ⟨entry, h, .refl entry⟩
  ignored := fun _ entry h => ⟨entry, h, le_rfl⟩

variable {a b : InterpretationStore}

theorem trans {c : InterpretationStore} (h : a.KeptBy b) (h' : b.KeptBy c) : a.KeptBy c where
  confirmed := by
    intro signature entry hentry
    obtain ⟨entry', hentry', hsup⟩ := h.confirmed signature entry hentry
    obtain ⟨entry'', hentry'', hsup'⟩ := h'.confirmed signature entry' hentry'
    exact ⟨entry'', hentry'', hsup.trans hsup'⟩
  ignored := by
    intro signature entry hentry
    obtain ⟨entry', hentry', hle⟩ := h.ignored signature entry hentry
    obtain ⟨entry'', hentry'', hle'⟩ := h'.ignored signature entry' hentry'
    exact ⟨entry'', hentry'', hle.trans hle'⟩

/-- What is held is held by every store that keeps the first. -/
theorem holds (h : a.KeptBy b) {verdict : ReviewedVerdict} (hholds : a.Holds verdict) :
    b.Holds verdict := by
  cases verdict with
  | accepted signature entry =>
    obtain ⟨entry', hentry', hsup⟩ := hholds
    obtain ⟨entry'', hentry'', hsup'⟩ := h.confirmed signature entry' hentry'
    exact ⟨entry'', hentry'', hsup.trans hsup'⟩
  | rejected signature at_ =>
    obtain ⟨entry, hentry, hle⟩ := hholds
    obtain ⟨entry', hentry', hle'⟩ := h.ignored signature entry hentry
    exact ⟨entry', hentry', hle.trans hle'⟩

theorem of_eq (hconfirmed : b.confirmed = a.confirmed) (hignored : b.ignored = a.ignored) :
    a.KeptBy b where
  confirmed := fun _ entry h => ⟨entry, hconfirmed ▸ h, .refl entry⟩
  ignored := fun _ entry h => ⟨entry, hignored ▸ h, le_rfl⟩

end KeptBy

end InterpretationStore

/-! ## Rows -/

/-- A signature that has all its parts, and is filed under its current key. -/
def WellFormed (readers : MessageReaders) (signature : Text) : Prop :=
  (signatureParts signature).isSome = true ∧ rekey readers signature = signature

/-- The confirmed rows, and the signatures of the ignored ones, satisfy these. -/
structure Rows (P : Text → Interpretation → Prop) (Q : Text → Prop)
    (store : InterpretationStore) : Prop where
  confirmed : ∀ signature entry, store.confirmed.get? signature = some entry → P signature entry
  ignored : ∀ signature entry, store.ignored.get? signature = some entry → Q signature

/-- The rows of a store that a write and a read leave alone. -/
abbrev Sound (readers : MessageReaders) : InterpretationStore → Prop :=
  Rows (fun signature entry => WellFormed readers signature ∧ validTemplate entry.scope = true)
    (WellFormed readers)

theorem Rows.empty (P : Text → Interpretation → Prop) (Q : Text → Prop) : Rows P Q emptyStore where
  confirmed := fun _ _ h => nomatch h
  ignored := fun _ _ h => nomatch h

section Reading

variable {readers : MessageReaders}

theorem get?_migrated {α : Type} {take : Option α → α → Bool} (htake : ∀ v, take none v = true)
    {rows : OrderedMap Text α} (h : ∀ signature entry, rows.get? signature = some entry →
      rekey readers signature = signature) (signature : Text) :
    (OrderedMap.layer take .empty (rows.entries.map fun e => (rekey readers e.1, e.2))).get?
        signature
      = rows.get? signature := by
  have hsame : (rows.entries.map fun e => (rekey readers e.1, e.2)) = rows.entries := by
    refine (List.map_congr_left fun e he => ?_).trans (List.map_id _)
    rw [h e.1 e.2 ((OrderedMap.mem_entries_iff rows).mp he)]
    rfl
  rw [hsame, OrderedMap.get?_layer_empty htake]

theorem mem_migrated {α : Type} {take : Option α → α → Bool} {rows : OrderedMap Text α}
    {signature : Text} {entry : α}
    (h : (OrderedMap.layer take .empty (rows.entries.map fun e => (rekey readers e.1, e.2))).get?
      signature = some entry) :
    ∃ written, rows.get? written = some entry ∧ rekey readers written = signature := by
  rcases OrderedMap.mem_layer h with hbase | hin
  · cases hbase
  · obtain ⟨⟨written, entry'⟩, he, heq⟩ := List.mem_map.mp hin
    cases heq
    exact ⟨written, (OrderedMap.mem_entries_iff rows).mp he, rfl⟩

variable {store : InterpretationStore}

variable (h : Sound readers store)

include h

theorem get?_confirmed_readStoreFile (signature : Text) :
    (readStoreFile readers store).confirmed.get? signature = store.confirmed.get? signature := by
  have hfilter : (store.confirmed.filterEntries fun sig entry =>
      (signatureParts sig).isSome && validTemplate entry.scope) = store.confirmed :=
    OrderedMap.filterEntries_eq_self fun sig entry hentry => by
      obtain ⟨hsig, hscope⟩ := h.confirmed sig entry hentry
      rw [hsig.1, hscope]
      rfl
  unfold readStoreFile migrateSignatures
  rw [hfilter]
  exact get?_migrated (fun _ => rfl) (fun sig entry hentry => (h.confirmed sig entry hentry).1.2)
    signature

theorem get?_ignored_readStoreFile (signature : Text) :
    (readStoreFile readers store).ignored.get? signature = store.ignored.get? signature := by
  have hfilter : (store.ignored.filterEntries fun sig _ => (signatureParts sig).isSome)
      = store.ignored :=
    OrderedMap.filterEntries_eq_self fun sig entry hentry => (h.ignored sig entry hentry).1
  unfold readStoreFile migrateSignatures
  rw [hfilter]
  exact get?_migrated (fun _ => rfl) (fun sig entry hentry => (h.ignored sig entry hentry).2)
    signature

/-- A sound store is read as it was written. -/
theorem keptBy_readStoreFile :
    store.KeptBy (readStoreFile readers store) where
  confirmed := fun signature entry hentry =>
    ⟨entry, (get?_confirmed_readStoreFile h signature).trans hentry, .refl entry⟩
  ignored := fun signature entry hentry =>
    ⟨entry, (get?_ignored_readStoreFile h signature).trans hentry, le_rfl⟩

/-- A read adds no verdict. -/
theorem readStoreFile_keptBy :
    (readStoreFile readers store).KeptBy store where
  confirmed := fun signature entry hentry =>
    ⟨entry, (get?_confirmed_readStoreFile h signature).symm.trans hentry, .refl entry⟩
  ignored := fun signature entry hentry =>
    ⟨entry, (get?_ignored_readStoreFile h signature).symm.trans hentry, le_rfl⟩

omit h

/-- What rows satisfy under their current keys, the rows of what is read satisfy. -/
theorem Rows.readStoreFile {P : Text → Interpretation → Prop} {Q : Text → Prop}
    {store : InterpretationStore} (h : Rows P Q store)
    (hP : ∀ signature entry, P signature entry → rekey readers signature = signature)
    (hQ : ∀ signature, Q signature → rekey readers signature = signature) :
    Rows P Q (readStoreFile readers store) where
  confirmed := by
    intro signature entry hentry
    obtain ⟨written, hwritten, hkey⟩ := mem_migrated hentry
    have hrow := h.confirmed written entry (OrderedMap.get?_filterEntries_eq_some.mp hwritten).1
    rw [hP written entry hrow] at hkey
    exact hkey ▸ hrow
  ignored := by
    intro signature entry hentry
    obtain ⟨written, hwritten, hkey⟩ := mem_migrated hentry
    have hrow := h.ignored written entry (OrderedMap.get?_filterEntries_eq_some.mp hwritten).1
    rw [hQ written hrow] at hkey
    exact hkey ▸ hrow

theorem Sound.readStoreFile {store : InterpretationStore} (h : Sound readers store) :
    Sound readers (readStoreFile readers store) :=
  Rows.readStoreFile h (fun _ _ hrow => hrow.1.2) fun _ hrow => hrow.2

end Reading

/-! ## Merging -/

section Merging

variable {disk memory : InterpretationStore}

theorem get?_confirmed_mergeStores (signature : Text) :
    (mergeStores disk memory).confirmed.get? signature
      = (disk.confirmed.get? signature).or (memory.confirmed.get? signature) := by
  unfold mergeStores
  rw [OrderedMap.get?_layer memory.confirmed.nodup]
  show _ = (disk.confirmed.get? signature).or (lookupEntry signature memory.confirmed.entries)
  cases disk.confirmed.get? signature <;>
    cases lookupEntry signature memory.confirmed.entries <;> rfl

theorem get?_ignored_mergeStores (signature : Text) :
    (mergeStores disk memory).ignored.get? signature
      = match memory.ignored.get? signature with
        | some entry =>
          if takesLaterRejection (disk.ignored.get? signature) entry then some entry
          else disk.ignored.get? signature
        | none => disk.ignored.get? signature := by
  unfold mergeStores
  rw [OrderedMap.get?_layer memory.ignored.nodup]
  show _ = match lookupEntry signature memory.ignored.entries with
    | some entry => if _ then some entry else _
    | none => _
  cases lookupEntry signature memory.ignored.entries <;> rfl

theorem ignored_mergeStores_ge {signature : Text} {entry : IgnoredRefusal}
    (h : disk.ignored.get? signature = some entry ∨ memory.ignored.get? signature = some entry) :
    ∃ entry', (mergeStores disk memory).ignored.get? signature = some entry'
      ∧ entry.at_ ≤ entry'.at_ := by
  rw [get?_ignored_mergeStores]
  cases hmemory : memory.ignored.get? signature with
  | none =>
    rw [hmemory] at h
    exact ⟨entry, h.resolve_right (fun h => nomatch h), le_rfl⟩
  | some inMemory =>
    rw [hmemory] at h
    cases hdisk : disk.ignored.get? signature with
    | none =>
      rw [hdisk] at h
      obtain rfl := Option.some.inj (h.resolve_left fun h => nomatch h)
      exact ⟨inMemory, rfl, le_rfl⟩
    | some onDisk =>
      rw [hdisk] at h
      -- the later of the two is at least each of them
      by_cases hlt : onDisk.at_ < inMemory.at_
      · refine ⟨inMemory, if_pos (decide_eq_true hlt), ?_⟩
        rcases h with h | h <;> obtain rfl := Option.some.inj h <;> omega
      · refine ⟨onDisk, if_neg fun h => hlt (of_decide_eq_true h), ?_⟩
        rcases h with h | h <;> obtain rfl := Option.some.inj h <;> omega

/-- A merge keeps what is on disk. -/
theorem keptBy_mergeStores : disk.KeptBy (mergeStores disk memory) where
  confirmed := by
    intro signature entry hentry
    refine ⟨entry, ?_, .refl entry⟩
    rw [get?_confirmed_mergeStores, hentry]
    rfl
  ignored := fun _ _ hentry => ignored_mergeStores_ge (.inl hentry)

/-- A merge keeps a verdict of the memory, unless an older acceptance is on disk. -/
theorem holds_mergeStores {verdict : ReviewedVerdict} (h : memory.Holds verdict)
    (hdisk : ∀ signature entry, verdict = .accepted signature entry →
      ∀ entry', disk.confirmed.get? signature = some entry' → entry.SupersededBy entry') :
    (mergeStores disk memory).Holds verdict := by
  cases verdict with
  | accepted signature entry =>
    obtain ⟨entry', hentry', hsup⟩ := h
    cases hon : disk.confirmed.get? signature with
    | none =>
      refine ⟨entry', ?_, hsup⟩
      rw [get?_confirmed_mergeStores, hon]
      exact hentry'
    | some found =>
      refine ⟨found, ?_, hdisk signature entry rfl found hon⟩
      rw [get?_confirmed_mergeStores, hon]
      rfl
  | rejected signature at_ =>
    obtain ⟨entry, hentry, hle⟩ := h
    obtain ⟨entry', hentry', hle'⟩ := ignored_mergeStores_ge (.inr hentry)
    exact ⟨entry', hentry', hle.trans hle'⟩

theorem Rows.mergeStores {P : Text → Interpretation → Prop} {Q : Text → Prop}
    (hdisk : Rows P Q disk) (hmemory : Rows P Q memory) : Rows P Q (mergeStores disk memory) where
  confirmed := by
    intro signature entry hentry
    rcases OrderedMap.mem_layer hentry with hbase | hin
    · exact hdisk.confirmed signature entry hbase
    · exact hmemory.confirmed signature entry ((OrderedMap.mem_entries_iff _).mp hin)
  ignored := by
    intro signature entry hentry
    rcases OrderedMap.mem_layer hentry with hbase | hin
    · exact hdisk.ignored signature entry hbase
    · exact hmemory.ignored signature entry ((OrderedMap.mem_entries_iff _).mp hin)

end Merging

/-! ## Calls -/

namespace Call

variable {readers : MessageReaders}

/-- The signature that is judged is well formed. -/
def OnSignature (readers : MessageReaders) : Call → Prop
  | .accept signature _ _ => WellFormed readers signature
  | .reject signature _ => WellFormed readers signature
  | _ => True

/-- A verdict that a read accepts, and that is newer than what the store has on its signature. -/
def Timely (store : InterpretationStore) : Call → Prop
  | .accept signature override_ now =>
    ∀ entry, acceptedEntry store signature override_ now = some entry →
      validTemplate entry.scope = true
        ∧ ∀ existing, store.confirmed.get? signature = some existing →
          existing.SupersededBy entry
  | .reject signature now =>
    ∀ existing, store.ignored.get? signature = some existing → existing.at_ ≤ now
  | _ => True

variable (readers) in
/-- What a call changes among the confirmed and the ignored rows. -/
theorem run_cases (store : InterpretationStore) (call : Call) :
    ((call.run readers store).store.confirmed = store.confirmed
        ∧ (call.run readers store).store.ignored = store.ignored
        ∧ (call.run readers store).verdict = none)
      ∨ (∃ signature override_ now entry, call = .accept signature override_ now
        ∧ acceptedEntry store signature override_ now = some entry
        ∧ (call.run readers store).store = acceptInterpretation store signature entry
        ∧ (call.run readers store).verdict = some (.accepted signature entry))
      ∨ (∃ signature now, call = .reject signature now
        ∧ (call.run readers store).store.confirmed = store.confirmed
        ∧ (call.run readers store).store.ignored = store.ignored.set signature { at_ := now }
        ∧ (call.run readers store).verdict = some (.rejected signature now)) := by
  cases call with
  | interpret provider model status body => exact .inl ⟨rfl, rfl, rfl⟩
  | record provider model status body now =>
    refine .inl ?_
    unfold run
    dsimp only
    cases hrecord : recordUnknownRefusal readers store provider model status body now with
    | none => exact ⟨rfl, rfl, rfl⟩
    | some store' =>
      unfold recordUnknownRefusal at hrecord
      dsimp only at hrecord
      split at hrecord
      · cases hrecord
      · split at hrecord
        · cases hrecord
        · split at hrecord <;> cases hrecord <;> exact ⟨rfl, rfl, rfl⟩
  | propose signature proposal =>
    refine .inl ?_
    unfold run proposeInterpretation
    dsimp only
    cases store.unknown.get? signature <;> exact ⟨rfl, rfl, rfl⟩
  | accept signature override_ now =>
    cases hentry : acceptedEntry store signature override_ now with
    | none =>
      refine .inl ?_
      unfold run
      dsimp only
      rw [hentry]
      exact ⟨rfl, rfl, rfl⟩
    | some entry =>
      refine .inr (.inl ⟨signature, override_, now, entry, rfl, hentry, ?_⟩)
      unfold run
      dsimp only
      rw [hentry]
      exact ⟨rfl, rfl⟩
  | reject signature now =>
    show _ ∨ _ ∨ _
    unfold run rejectInterpretation
    dsimp only
    split
    · exact .inr (.inr ⟨signature, now, rfl, rfl, rfl, rfl⟩)
    · exact .inl ⟨rfl, rfl, rfl⟩

variable {store : InterpretationStore} {call : Call}

/-- A timely call keeps what the store has. -/
theorem keptBy_run (h : call.Timely store) : store.KeptBy (call.run readers store).store := by
  rcases run_cases readers store call with ⟨hconfirmed, hignored, -⟩
    | ⟨signature, override_, now, entry, rfl, hentry, hstore, -⟩
    | ⟨signature, now, rfl, hconfirmed, hignored, -⟩
  · exact .of_eq hconfirmed hignored
  · rw [hstore]
    obtain ⟨-, hnewer⟩ := h entry hentry
    refine ⟨fun sig existing hexisting => ?_, fun sig existing hexisting =>
      ⟨existing, hexisting, le_rfl⟩⟩
    show ∃ entry', (store.confirmed.set signature entry).get? sig = some entry' ∧ _
    rw [OrderedMap.get?_set]
    by_cases hsig : signature = sig
    · subst hsig
      exact ⟨entry, if_pos rfl, hnewer existing hexisting⟩
    · exact ⟨existing, (if_neg hsig).trans hexisting, .refl existing⟩
  · refine ⟨fun sig existing hexisting => ⟨existing, hconfirmed ▸ hexisting, .refl existing⟩,
      fun sig existing hexisting => ?_⟩
    rw [hignored, OrderedMap.get?_set]
    by_cases hsig : signature = sig
    · subst hsig
      exact ⟨{ at_ := now }, if_pos rfl, h existing hexisting⟩
    · exact ⟨existing, (if_neg hsig).trans hexisting, le_rfl⟩

/-- The verdict that is given is held. -/
theorem holds_run {verdict : ReviewedVerdict} (h : (call.run readers store).verdict = some verdict) :
    (call.run readers store).store.Holds verdict := by
  rcases run_cases readers store call with ⟨-, -, hnone⟩
    | ⟨signature, override_, now, entry, rfl, -, hstore, hverdict⟩
    | ⟨signature, now, rfl, -, hignored, hverdict⟩
  · rw [hnone] at h
    cases h
  · obtain rfl := Option.some.inj (hverdict.symm.trans h)
    rw [hstore]
    exact ⟨entry, OrderedMap.get?_set_self _ _ _, .refl entry⟩
  · obtain rfl := Option.some.inj (hverdict.symm.trans h)
    exact ⟨{ at_ := now }, hignored ▸ OrderedMap.get?_set_self _ _ _, le_rfl⟩

/-- The rows after a call: the rows before it, and the one that it gives. -/
theorem rows_run {P : Text → Interpretation → Prop} {Q : Text → Prop} (h : Rows P Q store)
    (haccept : ∀ signature entry,
      (call.run readers store).verdict = some (.accepted signature entry) → P signature entry)
    (hreject : ∀ signature now,
      (call.run readers store).verdict = some (.rejected signature now) → Q signature) :
    Rows P Q (call.run readers store).store := by
  rcases run_cases readers store call with ⟨hconfirmed, hignored, -⟩
    | ⟨signature, override_, now, entry, rfl, -, hstore, hverdict⟩
    | ⟨signature, now, rfl, hconfirmed, hignored, hverdict⟩
  · exact ⟨hconfirmed ▸ h.confirmed, hignored ▸ h.ignored⟩
  · rw [hstore]
    refine ⟨fun sig found hfound => ?_, h.ignored⟩
    change (store.confirmed.set signature entry).get? sig = some found at hfound
    rw [OrderedMap.get?_set] at hfound
    split at hfound
    · rename_i hsig
      cases hfound
      exact hsig ▸ haccept signature entry hverdict
    · exact h.confirmed sig found hfound
  · refine ⟨hconfirmed ▸ h.confirmed, fun sig found hfound => ?_⟩
    rw [hignored, OrderedMap.get?_set] at hfound
    split at hfound
    · rename_i hsig
      exact hsig ▸ hreject signature now hverdict
    · exact h.ignored sig found hfound

end Call

end LlmRelay.Refusals
