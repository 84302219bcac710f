import LlmRelay.Refusals.InterpretationStore
import Mathlib.Logic.Function.Basic

/-!
# Processes over one store file

Processes share the file of refusal interpretations. A process keeps the store that it has read
with the stat token of the file, and loads again when the token has moved. What it changes is
written behind a timer: `persist` observes the file, merges it where the token has moved, and
replaces it by a rename; then it takes over the token of what it sees.

Each access to the file is one step, so that the processes interleave between the accesses of
one call. A rename gives the file a new token. What a read of the file yields stands for the
file.

## Main definitions

* `Call`, `Call.run`: the operations, on the store that was loaded;
* `Process`, `Phase`: a process, and where it stands in a call;
* `Event`, `World.step`: what a process does.
-/

namespace LlmRelay.Refusals

open Ecma

/-! ## Calls -/

inductive Call where
  | interpret (provider : Text) (model : Option Text) (status : Nat) (body : Text)
  | record (provider : Text) (model : Option Text) (status : Nat) (body : Text) (now : ℤ)
  | propose (signature : Text) (proposal : Proposal)
  | accept (signature : Text) (override_ : Option StatedVerdict) (now : ℤ)
  | reject (signature : Text) (now : ℤ)

/-- A verdict that was given on a signature. -/
inductive ReviewedVerdict where
  | accepted (signature : Text) (entry : Interpretation)
  | rejected (signature : Text) (at_ : ℤ)
  deriving DecidableEq

/-- What a call leaves behind: the store, whether the writer was touched, the verdict that was
given, and the interpretation that was returned for a signature. -/
structure Outcome where
  store : InterpretationStore
  touched : Bool
  verdict : Option ReviewedVerdict := none
  answer : Option (Text × Interpretation) := none

/-- A call that may leave the store as it is. -/
def Outcome.ofOption (store : InterpretationStore) (changed : Option InterpretationStore)
    (verdict : Option ReviewedVerdict) : Outcome :=
  match changed with
  | some store' => { store := store', touched := true, verdict := verdict }
  | none => { store := store, touched := false }

namespace Call

/-- The call on the store that `load` returned. -/
def run (readers : MessageReaders) (store : InterpretationStore) : Call → Outcome
  | .interpret provider model status body =>
    { store := store
      touched := false
      answer := (interpretRefusal readers store provider model status body).map fun entry =>
        (refusalSignature readers provider model status body, entry) }
  | .record provider model status body now =>
    .ofOption store (recordUnknownRefusal readers store provider model status body now) none
  | .propose signature proposal =>
    .ofOption store (proposeInterpretation store signature proposal) none
  | .accept signature override_ now =>
    match acceptedEntry store signature override_ now with
    | some entry =>
      .ofOption store (some (acceptInterpretation store signature entry))
        (some (.accepted signature entry))
    | none => .ofOption store none none
  | .reject signature now =>
    .ofOption store (rejectInterpretation store signature now) (some (.rejected signature now))

/-- A refusal whose message has no normal form is not recorded, and nothing is loaded for it. -/
def skips (readers : MessageReaders) : Call → Bool
  | .record _ _ _ body _ => decide (readers.normalizeRefusalMessage body = [])
  | _ => false

end Call

/-! ## Processes -/

/-- The file, as every read of it parses it, with its stat token. -/
structure StoreFile where
  content : InterpretationStore
  token : Nat

/-- The variables of the module: `_store`, `_token`, and whether the writer is dirty. -/
structure StoreModule where
  store : Option InterpretationStore
  token : Option Nat
  dirty : Bool

/-- `load` may return the store that it has: the file is as it was. -/
def StoreModule.memoised (module_ : StoreModule) (observation : Option Nat) : Bool :=
  module_.store.isSome && decide (module_.token = observation)

/-- Where a process stands between two accesses to the file. -/
inductive Phase where
  | idle
  /-- `load` has observed this token, and reads next. -/
  | loading (call : Call) (token : Nat)
  /-- `persist` has seen that the file has moved, and reads next. -/
  | merging
  /-- `persist` writes this store next; it is a merged one, or the memory. -/
  | replacing (store : InterpretationStore) (merged : Bool)
  /-- `persist` has written, and observes the file once more. -/
  | settling (merged : Bool)

/-- A process: its module, the verdicts that it has given since its last write, and whether the
token that it has stems from a write that merged. -/
structure Process where
  module_ : StoreModule
  phase : Phase
  unflushed : List ReviewedVerdict
  merged : Bool

/-- A process that has loaded nothing. -/
def Process.started : Process where
  module_ := { store := none, token := none, dirty := false }
  phase := .idle
  unflushed := []
  merged := false

/-- The file and the processes over it, with the verdicts that were given, those that were
written, and the interpretations that were returned. -/
structure World (ι : Type) where
  file : Option StoreFile
  rewrites : Nat
  processes : ι → Process
  reviewed : List ReviewedVerdict
  flushed : List ReviewedVerdict
  answers : List (Text × Interpretation)

/-- Processes that start over a file. -/
def World.opened (ι : Type) (initial : Option InterpretationStore) : World ι where
  file := initial.map fun content => { content := content, token := 0 }
  rewrites := 1
  processes := fun _ => .started
  reviewed := []
  flushed := []
  answers := []

inductive Action where
  /-- A call starts, up to its first access. -/
  | call (call : Call)
  /-- `flushInterpretations`, or the timer fires: `persist` starts. -/
  | flush
  /-- The next access of the call that is under way. -/
  | access
  /-- Writing fails, which `persist` swallows. -/
  | fail

structure Event (ι : Type) where
  process : ι
  action : Action

namespace World

variable {ι : Type} [DecidableEq ι]

/-- The stat token that is seen. -/
def observation (world : World ι) : Option Nat :=
  world.file.map (·.token)

/-- What `readStoreFile` returns. -/
def content (world : World ι) : InterpretationStore :=
  (world.file.map (·.content)).getD emptyStore

def setProcess (world : World ι) (p : ι) (process : Process) : World ι :=
  { world with processes := Function.update world.processes p process }

/-- A call goes on with the store that was loaded, to its end. -/
def finish (readers : MessageReaders) (world : World ι) (p : ι) (process : Process)
    (store : InterpretationStore) (call : Call) : World ι :=
  let outcome := call.run readers store
  { world.setProcess p
      { process with
        module_ :=
          { process.module_ with
            store := some outcome.store
            dirty := process.module_.dirty || outcome.touched }
        phase := .idle
        unflushed := process.unflushed ++ outcome.verdict.toList } with
    reviewed := world.reviewed ++ outcome.verdict.toList
    answers := world.answers ++ outcome.answer.toList }

/-- A call, up to its first access: `load` observes the file. -/
def startCall (readers : MessageReaders) (world : World ι) (p : ι) (process : Process)
    (call : Call) : World ι :=
  if call.skips readers then world
  else if process.module_.memoised world.observation then
    world.finish readers p process (process.module_.store.getD emptyStore) call
  else
    match world.observation with
    | some token => world.setProcess p { process with phase := .loading call token }
    | none =>
      world.finish readers p
        { process with
          module_ := { process.module_ with store := some emptyStore, token := none }
          merged := false }
        emptyStore call

/-- `flushInterpretations`, up to its first access: `persist` observes the file. -/
def startFlush (world : World ι) (p : ι) (process : Process) : World ι :=
  if process.module_.dirty then
    let clean := { process with module_ := { process.module_ with dirty := false } }
    match process.module_.store with
    | none => world.setProcess p clean
    | some store =>
      world.setProcess p
        { clean with
          phase :=
            if world.observation.isSome ∧ world.observation ≠ process.module_.token then
              .merging
            else
              .replacing store false }
  else
    world

/-- The next access of the call that is under way. -/
def access (readers : MessageReaders) (world : World ι) (p : ι) (process : Process) : World ι :=
  match process.phase with
  | .idle => world
  | .loading call token =>
    world.finish readers p
      { process with
        module_ := { process.module_ with store := some world.content, token := some token }
        merged := false }
      world.content call
  | .merging =>
    world.setProcess p
      { process with
        phase := .replacing
          (mergeStores world.content (process.module_.store.getD emptyStore)) true }
  | .replacing store merged =>
    { world.setProcess p { process with phase := .settling merged, unflushed := [] } with
      file := some { content := readStoreFile readers store, token := world.rewrites }
      rewrites := world.rewrites + 1
      flushed := world.flushed ++ process.unflushed }
  | .settling merged =>
    world.setProcess p
      { process with
        module_ := { process.module_ with token := world.observation }
        phase := .idle
        merged := merged }

/-- What a process does. -/
def step (readers : MessageReaders) (world : World ι) (event : Event ι) : World ι :=
  let process := world.processes event.process
  match event.action, process.phase with
  | .call call, .idle => world.startCall readers event.process process call
  | .flush, .idle => world.startFlush event.process process
  | .access, _ => world.access readers event.process process
  | .fail, .replacing _ _ => world.setProcess event.process { process with phase := .idle }
  | _, _ => world

/-- The world after a run. -/
def after (readers : MessageReaders) (world : World ι) (events : List (Event ι)) : World ι :=
  events.foldl (step readers) world

end World

end LlmRelay.Refusals
