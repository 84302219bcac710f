import LlmRelay.Ecma.Layers
import LlmRelay.Facts.Store

/-!
# What a refusal means

The store of refusal interpretations (`refusal-interpretation.ts`): the verdicts that were
accepted, the refusals that await one, and those that were judged to mean nothing, filed under
the signatures of the refusals. A process reads the store file, changes its copy, and merges the
file into what it writes back where the file has moved.

What is read off a message is a parameter: its normal form, and the verdicts that the message
states by itself.

## Main definitions

* `Interpretation`, `UnknownRefusal`, `InterpretationStore`: the rows and the store;
* `signatureParts`, `refusalSignature`: the keys;
* `readStoreFile`, `mergeStores`: what is read, and what is merged;
* `recordUnknownRefusal`, `proposeInterpretation`, `acceptInterpretation`,
  `rejectInterpretation`, `interpretRefusal`: the operations, on a loaded store.
-/

namespace LlmRelay.Refusals

open Ecma
open Facts (FactKind CostClass)

/-! ## Rows -/

/-- Whether a group covers the credential of the attempt, or every one. -/
inductive GroupCredential where
  | attempt | all
  deriving DecidableEq

/-- Who a verdict applies to, independently of the request. -/
inductive ScopeTemplate where
  | attempt | deployment | credential | provider | model
  | group (members : List Text) (credential : GroupCredential)
  deriving DecidableEq

/-- When the condition clears. -/
inductive ResetRule where
  | field (field : Text)
  | fixed (ms : Number)
  deriving DecidableEq

inductive InterpretationSource where
  | seed | researched
  deriving DecidableEq

/-- What a reviewer states about a refusal. -/
structure StatedVerdict where
  class_ : FactKind
  scope : ScopeTemplate
  reset : Option ResetRule
  costClasses : Option (List CostClass)
  deriving DecidableEq

structure Interpretation where
  class_ : FactKind
  scope : ScopeTemplate
  reset : Option ResetRule := none
  costClasses : Option (List CostClass) := none
  source : InterpretationSource
  acceptedAt : Option ℤ := none
  rationale : Option Text := none
  deriving DecidableEq

/-- A researched verdict that awaits acceptance. -/
structure Proposal where
  verdict : StatedVerdict
  rationale : Text
  at_ : ℤ
  deriving DecidableEq

structure UnknownRefusal where
  provider : Text
  model : Option Text
  status : Nat
  normalized : Text
  sample : Text
  count : Nat
  firstSeen : ℤ
  lastSeen : ℤ
  proposed : Option Proposal
  deriving DecidableEq

/-- A refusal that was judged to mean nothing durable. -/
structure IgnoredRefusal where
  at_ : ℤ
  deriving DecidableEq

structure InterpretationStore where
  confirmed : OrderedMap Text Interpretation
  unknown : OrderedMap Text UnknownRefusal
  ignored : OrderedMap Text IgnoredRefusal

/-- The one empty store: absent, unreadable and corrupt all resolve to it. -/
def emptyStore : InterpretationStore where
  confirmed := .empty
  unknown := .empty
  ignored := .empty

/-- How long a rejection is honoured. -/
def IGNORED_TTL_MS : ℤ := 30 * 24 * 60 * 60 * 1000

/-- Cap on retained unknown signatures. -/
def MAX_UNKNOWN : Nat := 200

/-! ## Messages and signatures -/

/-- What is read off a refusal: the normal form of its message, the verdict that a structured
payload states, and that of the first seed whose status and pattern fit. -/
structure MessageReaders where
  normalizeRefusalMessage : Text → Text
  interpretStructured : Nat → Text → Option (FactKind × ScopeTemplate)
  seedInterpretation : Nat → Text → Option (FactKind × ScopeTemplate)

def bar : CodeUnit := 0x7C

/-- What `.` does not match. -/
def isLineTerminator (c : CodeUnit) : Bool :=
  c == 0x0A || c == 0x0D || c == 0x2028 || c == 0x2029

structure SignatureParts where
  provider : Text
  model : Option Text
  status : Nat
  sample : Text
  deriving DecidableEq

/-- `/^([^|]+)\|([^|]*)\|(\d{3})\|(.+)$/`, with a model that is not empty. -/
def signatureParts (signature : Text) : Option SignatureParts :=
  let provider := signature.takeWhile (· ≠ bar)
  let afterProvider := (signature.dropWhile (· ≠ bar)).drop 1
  let model := afterProvider.takeWhile (· ≠ bar)
  match afterProvider.dropWhile (· ≠ bar) with
  | _ :: a :: b :: c :: d :: sample =>
    if isDigit a ∧ isDigit b ∧ isDigit c ∧ d = bar ∧ provider ≠ [] ∧ model ≠ []
        ∧ sample ≠ [] ∧ sample.all (fun e => !isLineTerminator e) then
      some
        { provider := provider
          model := if model = text "-" then none else some model
          status := ofDigits ([a, b, c].map digitValue)
          sample := sample }
    else
      none
  | _ => none

/-- A signature of these parts. -/
def joinSignature (provider : Text) (model : Option Text) (status message : Text) : Text :=
  provider ++ [bar] ++ model.getD (text "-") ++ [bar] ++ status ++ [bar] ++ message

/-- `refusalSignature`: the key of a refusal. -/
def refusalSignature (readers : MessageReaders) (provider : Text) (model : Option Text)
    (status : Nat) (body : Text) : Text :=
  joinSignature provider model (Number.natText status) (readers.normalizeRefusalMessage body)

/-! ## Reading -/

def validTemplate : ScopeTemplate → Bool
  | .group members _ => members.all fun member => decide (member ≠ [])
  | _ => true

def validProposal (proposal : Proposal) : Bool :=
  validTemplate proposal.verdict.scope

/-- `unknownMatchesSignature`. -/
def unknownMatchesSignature (signature : Text) (value : UnknownRefusal) : Bool :=
  match signatureParts signature with
  | none => false
  | some parts =>
    decide (value.provider = parts.provider) && decide (value.model = parts.model)
      && decide (value.status = parts.status) && decide (value.normalized = parts.sample)

/-- `validUnknown`. -/
def validUnknown (value : UnknownRefusal) : Bool :=
  decide (value.provider ≠ []) && value.proposed.all validProposal
    && (signatureParts (joinSignature value.provider value.model (Number.natText value.status)
      value.normalized)).isSome

/-- The key under the current normal form of messages. -/
def rekey (readers : MessageReaders) (signature : Text) : Text :=
  match signatureParts signature with
  | none => signature
  | some parts =>
    let renorm := readers.normalizeRefusalMessage parts.sample
    if renorm = [] ∨ renorm = parts.sample then signature
    else joinSignature parts.provider parts.model (Number.natText parts.status) renorm

/-- `mergeUnknownPair`: counts sum, the window spans both, the fresher sample wins. -/
def mergeUnknownPair (incoming : UnknownRefusal) : Option UnknownRefusal → UnknownRefusal
  | none => incoming
  | some existing =>
    { (if existing.lastSeen ≤ incoming.lastSeen then incoming else existing) with
      count := incoming.count + existing.count
      firstSeen := min incoming.firstSeen existing.firstSeen
      lastSeen := max incoming.lastSeen existing.lastSeen }

/-- When a verdict was accepted; seeds rank as 0. -/
def Interpretation.acceptance (entry : Interpretation) : ℤ :=
  entry.acceptedAt.getD 0

/-- The later acceptance wins. -/
def takesLaterAcceptance : Option Interpretation → Interpretation → Bool
  | none, _ => true
  | some existing, entry => decide (existing.acceptance < entry.acceptance)

/-- The latest rejection wins. -/
def takesLaterRejection : Option IgnoredRefusal → IgnoredRefusal → Bool
  | none, _ => true
  | some existing, entry => decide (existing.at_ < entry.at_)

/-- One round of the loop of `migrateSignatures` over the unknown refusals. -/
def migrateUnknown (readers : MessageReaders) (confirmed : OrderedMap Text Interpretation)
    (ignored : OrderedMap Text IgnoredRefusal) (unknown : OrderedMap Text UnknownRefusal)
    (sig : Text) (entry : UnknownRefusal) : OrderedMap Text UnknownRefusal :=
  let next := rekey readers sig
  if confirmed.has next ∨ ignored.has next then unknown
  else
    match signatureParts next with
    | none => unknown
    | some parts =>
      let renormed :=
        if next = sig then entry
        else { entry with normalized := parts.sample, sample := parts.sample }
      unknown.set next (mergeUnknownPair renormed (unknown.get? next))

/-- `migrateSignatures`: every row under its current key. -/
def migrateSignatures (readers : MessageReaders) (store : InterpretationStore) :
    InterpretationStore :=
  let ignored := OrderedMap.layer takesLaterRejection .empty
    (store.ignored.entries.map fun e => (rekey readers e.1, e.2))
  let confirmed := OrderedMap.layer takesLaterAcceptance .empty
    (store.confirmed.entries.map fun e => (rekey readers e.1, e.2))
  { confirmed := confirmed
    ignored := ignored
    unknown := store.unknown.entries.foldl (fun unknown e =>
      migrateUnknown readers confirmed ignored unknown e.1 e.2) .empty }

/-- `readStoreFile`, on the store that was written: rows that are not well formed are dropped. -/
def readStoreFile (readers : MessageReaders) (store : InterpretationStore) :
    InterpretationStore :=
  migrateSignatures readers
    { confirmed := store.confirmed.filterEntries fun sig entry =>
        (signatureParts sig).isSome && validTemplate entry.scope
      unknown := store.unknown.filterEntries fun sig entry =>
        validUnknown entry && unknownMatchesSignature sig entry
      ignored := store.ignored.filterEntries fun sig _ => (signatureParts sig).isSome }

/-! ## Merging -/

/-- What is on disk wins over a conflicting row. -/
def takesUnlessPresent (existing : Option Interpretation) (_ : Interpretation) : Bool :=
  existing.isNone

/-- `mergeStores`: the file that has moved, with the rows of the memory. -/
def mergeStores (disk memory : InterpretationStore) : InterpretationStore :=
  let confirmed := OrderedMap.layer takesUnlessPresent disk.confirmed memory.confirmed.entries
  { confirmed := confirmed
    unknown := memory.unknown.entries.foldl (fun unknown e =>
      -- confirmed wins, a resolved refusal is not queued again
      if confirmed.has e.1 then unknown
      else unknown.set e.1 (mergeUnknownPair e.2 (unknown.get? e.1))) disk.unknown
    ignored := OrderedMap.layer takesLaterRejection disk.ignored memory.ignored.entries }

/-! ## Operations on a loaded store -/

/-- The verdict of the store, of the payload, or of a seed. -/
def interpretRefusal (readers : MessageReaders) (store : InterpretationStore) (provider : Text)
    (model : Option Text) (status : Nat) (body : Text) : Option Interpretation :=
  let hit := (store.confirmed.get? (refusalSignature readers provider model status body)).filter
    fun entry => decide (entry.source = .seed) || entry.acceptedAt.isSome
  match hit with
  | some entry => some entry
  | none =>
    match readers.interpretStructured status body with
    | some (class_, scope) =>
      some
        { class_ := class_
          scope := scope
          source := .seed
          reset := some (.field (text "retryDelay")) }
    | none =>
      (readers.seedInterpretation status (readers.normalizeRefusalMessage body)).map
        fun (class_, scope) => { class_ := class_, scope := scope, source := .seed }

/-- The signature that has not been seen for the longest time. -/
def oldestUnknown (unknown : OrderedMap Text UnknownRefusal) : Option Text :=
  (unknown.entries.foldl (fun (oldest : Option (Text × ℤ)) e =>
    match oldest with
    | none => some (e.1, e.2.lastSeen)
    | some (_, oldestAt) =>
      if e.2.lastSeen < oldestAt then some (e.1, e.2.lastSeen) else oldest) none).map Prod.fst

/-- Room for one more unknown refusal. -/
def evictUnknown (unknown : OrderedMap Text UnknownRefusal) : OrderedMap Text UnknownRefusal :=
  if MAX_UNKNOWN ≤ unknown.keys.length then
    match oldestUnknown unknown with
    | some oldestKey => unknown.delete oldestKey
    | none => unknown
  else
    unknown

/-- `recordUnknownRefusal` behind `load`; `none` where it returns early. -/
def recordUnknownRefusal (readers : MessageReaders) (store : InterpretationStore)
    (provider : Text) (model : Option Text) (status : Nat) (body : Text) (now : ℤ) :
    Option InterpretationStore :=
  let sig := refusalSignature readers provider model status body
  if store.confirmed.has sig then none
  else if (store.ignored.get? sig).any fun entry => decide (now - entry.at_ < IGNORED_TTL_MS) then
    none
  else
    match store.unknown.get? sig with
    | some existing =>
      some
        { store with
          unknown := store.unknown.set sig
            { existing with count := existing.count + 1, lastSeen := now } }
    | none =>
      let normalized := readers.normalizeRefusalMessage body
      some
        { store with
          unknown := (evictUnknown store.unknown).set sig
            { provider := provider
              model := model
              status := status
              normalized := normalized
              sample := normalized
              count := 1
              firstSeen := now
              lastSeen := now
              proposed := none } }

/-- `proposeInterpretation` behind `load`; `none` where nothing is pending. -/
def proposeInterpretation (store : InterpretationStore) (signature : Text)
    (proposal : Proposal) : Option InterpretationStore :=
  (store.unknown.get? signature).map fun pending =>
    { store with unknown := store.unknown.set signature { pending with proposed := some proposal } }

/-- The row that an acceptance writes; `none` where there is no verdict. -/
def acceptedEntry (store : InterpretationStore) (signature : Text)
    (override_ : Option StatedVerdict) (now : ℤ) : Option Interpretation :=
  let proposed := (store.unknown.get? signature).bind (·.proposed)
  (override_.or (proposed.map (·.verdict))).map fun verdict =>
    { class_ := verdict.class_
      scope := verdict.scope
      reset := verdict.reset.or (proposed.bind (·.verdict.reset))
      costClasses :=
        (verdict.costClasses.or (proposed.bind (·.verdict.costClasses))).filter (· ≠ [])
      source := .researched
      acceptedAt := some now
      rationale := (proposed.map (·.rationale)).filter (· ≠ []) }

/-- `acceptInterpretation` behind `load`, once there is an entry. -/
def acceptInterpretation (store : InterpretationStore) (signature : Text)
    (entry : Interpretation) : InterpretationStore :=
  { store with
    confirmed := store.confirmed.set signature entry
    unknown := store.unknown.delete signature }

/-- `rejectInterpretation` behind `load`; `none` where nothing is pending. -/
def rejectInterpretation (store : InterpretationStore) (signature : Text) (now : ℤ) :
    Option InterpretationStore :=
  if store.unknown.has signature then
    some
      { store with
        unknown := store.unknown.delete signature
        ignored := store.ignored.set signature { at_ := now } }
  else
    none

end LlmRelay.Refusals
