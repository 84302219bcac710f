import LlmRelay.Ecma.Strings

/-!
# The estimate of model output

While a response passes through, the relay estimates the tokens of the text and of the tool
arguments a model wrote. Streamed strings are counted at once, and taken back when they turn
out to be binary data; tool arguments are held until they are whole. Where a bound is
exceeded or something cannot be read, the estimate is *tainted*: it is absent for good.

## Main definitions

* `UsageAccumulator`: what is reported and estimated of a response;
* `OutputEstimateState`: the estimate under construction;
* `Observation`: both;
* `taintOutputEstimate`, `recordOutputText`, `appendStreamedOutputText`, `appendToolArguments`,
  `flushToolArguments`: the operations on the estimate.

## Main results

* `EstimatesOnly`: an operation that leaves the reported fields alone and keeps the taint;
  every operation of this module is one.
-/

namespace LlmRelay

open Ecma

/-- What is known of the tokens of a response. -/
structure UsageAccumulator where
  inputTokens : Option Nat
  outputTokens : Option Nat
  cachedInputTokens : Option Nat
  cacheCreationInputTokens : Option Nat
  cacheReadInputTokens : Option Nat
  completionTokens : Option Nat
  estimatedOutputTokens : Option Nat
  deriving DecidableEq, Repr

def createUsageAccumulator : UsageAccumulator :=
  ⟨none, none, none, none, none, none, none⟩

def MAX_PENDING_ARGUMENT_CHARS : Nat := 64 * 1024

def MAX_PENDING_TOOL_CALLS : Nat := 128

def MAX_STREAMED_TEXT_FIELDS : Nat := 128

/-- What a streamed string turned out to be. -/
inductive TextDisposition where
  | candidate
  | count
  | skip
  deriving DecidableEq, Repr

/-- A streamed string, as far as it was received. -/
structure StreamedTextState where
  disposition : TextDisposition
  heldCharacters : Nat
  prefixText : Text
  headerTail : Text
  deriving DecidableEq, Repr

/-- The estimate under construction. -/
structure OutputEstimateState where
  characters : Int
  overflow : Bool
  pendingArgumentCharacters : Int
  pendingArguments : OrderedMap Text Text
  streamedTexts : OrderedMap Text StreamedTextState
  deriving DecidableEq

/-- The accumulator and the estimate of one response. -/
structure Observation where
  accumulator : UsageAccumulator
  estimate : OutputEstimateState
  deriving DecidableEq

namespace Observation

/-- The observation of a response nothing of which has passed. -/
def new : Observation :=
  ⟨createUsageAccumulator, ⟨0, false, 0, .empty, .empty⟩⟩

/-- What the provider reported. -/
def reported (o : Observation) : UsageAccumulator :=
  { o.accumulator with estimatedOutputTokens := none }

/-- The estimate is absent for good. -/
structure Tainted (o : Observation) : Prop where
  overflow : o.estimate.overflow = true
  absent : o.accumulator.estimatedOutputTokens = none

theorem Tainted.accumulator_eq {o : Observation} (h : o.Tainted) : o.accumulator = o.reported := by
  rw [reported, ← h.absent]

end Observation

/-- `Number.isSafeInteger` of an integer. -/
def isSafeInteger (n : Int) : Bool :=
  decide (n.natAbs ≤ maxSafeInteger)

/-- `Math.ceil(characters / 4)` of a positive number of characters. -/
def estimateTokensFromCharacters (characters : Int) : Nat :=
  ((characters + 3) / 4).toNat

/-! ## Binary data -/

/-- `toLowerCase`, as far as a comparison with `data:` or `;base64` sees it: no character but a
Latin capital has a letter of these for its lower case. -/
def asciiLower (t : Text) : Text :=
  t.map fun c => if 0x41 ≤ c ∧ c ≤ 0x5A then c + 0x20 else c

def isBase64DataUrl (value : Text) : Bool :=
  if value.length < 13 ∨ asciiLower (value.take 5) ≠ text "data:" then false
  else
    match Text.indexOf (value.drop 5) (text ",") with
    | none => false
    | some i =>
      let comma := i + 5
      decide (12 ≤ comma) && asciiLower ((value.drop (comma - 7)).take 7) == text ";base64"

/-- The JSON text of an argument without its binary data. -/
structure SanitizedArgumentJson where
  characters : Nat
  removedBinary : Bool
  deriving DecidableEq, Repr

mutual
/-- The replacer of `sanitizedArgumentJson`, applied to the value of `key` and to all inside. -/
def sanitize (key : Text) : Json → Json × Bool
  | .str nestedValue =>
    if key = text "data" ∨ isBase64DataUrl nestedValue = true then (.str [], true)
    else (.str nestedValue, false)
  | .arr items => (.arr (sanitizeItems 0 items).1, (sanitizeItems 0 items).2)
  | .obj fields => (.obj (sanitizeFields fields).1, (sanitizeFields fields).2)
  | value => (value, false)

/-- The replacer on the elements from an index on. -/
def sanitizeItems (index : Nat) : List Json → List Json × Bool
  | [] => ([], false)
  | value :: rest =>
    let first := sanitize (Number.natText index) value
    let later := sanitizeItems (index + 1) rest
    (first.1 :: later.1, first.2 || later.2)

/-- The replacer on properties. -/
def sanitizeFields : List (Text × Json) → List (Text × Json) × Bool
  | [] => ([], false)
  | (key, value) :: rest =>
    let first := sanitize key value
    let later := sanitizeFields rest
    ((key, first.1) :: later.1, first.2 || later.2)
end

/-- `undefined` has no JSON text. -/
def sanitizedArgumentJson (value : Option Json) : SanitizedArgumentJson :=
  match value with
  | none => ⟨0, false⟩
  | some value => ⟨(sanitize [] value).1.stringify.length, (sanitize [] value).2⟩

/-- The characters of an argument that are text; absent where they cannot be told. -/
def argumentCharacters (value : Option Json) : Option Nat :=
  match value with
  | some (.str value) =>
    if isBase64DataUrl value then some 0
    else if value.length = 0 ∨ value.trim.length = 0 then some value.length
    else
      match Json.parse value with
      | none => none
      | some parsed =>
        let sanitized := sanitizedArgumentJson (some parsed)
        some (if sanitized.removedBinary then sanitized.characters else value.length)
  | value => some (sanitizedArgumentJson value).characters

/-! ## Operations -/

def publishOutputEstimate (o : Observation) : Observation :=
  let estimated :=
    if o.estimate.overflow ∨ 0 < o.estimate.pendingArguments.values.length
        ∨ o.estimate.characters ≤ 0 then
      none
    else
      some (estimateTokensFromCharacters o.estimate.characters)
  { o with accumulator := { o.accumulator with estimatedOutputTokens := estimated } }

def taintOutputEstimate (o : Observation) : Observation where
  accumulator := { o.accumulator with estimatedOutputTokens := none }
  estimate :=
    { o.estimate with
        overflow := true, pendingArgumentCharacters := 0,
        pendingArguments := .empty, streamedTexts := .empty }

/-- The estimate with another number of characters. -/
def Observation.withCharacters (o : Observation) (characters : Int) : Observation :=
  { o with estimate := { o.estimate with characters := characters } }

/-- The estimate with other streamed strings. -/
def Observation.withStreamedTexts (o : Observation)
    (streamedTexts : OrderedMap Text StreamedTextState) : Observation :=
  { o with estimate := { o.estimate with streamedTexts := streamedTexts } }

/-- The estimate with other pending arguments. -/
def Observation.withPendingArguments (o : Observation) (pendingArguments : OrderedMap Text Text)
    (pendingArgumentCharacters : Int) : Observation :=
  { o with
      estimate :=
        { o.estimate with
            pendingArguments := pendingArguments,
            pendingArgumentCharacters := pendingArgumentCharacters } }

def recordOutputCharacters (characters : Nat) (o : Observation) : Observation :=
  if o.estimate.overflow ∨ characters = 0 ∨ isSafeInteger characters = false then o
  else
    let next := o.estimate.characters + characters
    if isSafeInteger next = false then taintOutputEstimate o
    else publishOutputEstimate (o.withCharacters next)

def recordOutputText (value : Option Json) (o : Observation) : Observation :=
  match Json.string? value with
  | none => o
  | some value => if isBase64DataUrl value then o else recordOutputCharacters value.length o

/-- The characters of a string: code points, and unpaired surrogates. -/
def stringCharacters : Text → List Text
  | [] => []
  | [c] => [[c]]
  | c :: d :: rest =>
    if isHighSurrogate c && isLowSurrogate d then [c, d] :: stringCharacters rest
    else [c] :: stringCharacters (d :: rest)

/-- One character of a string that may be binary data; whether that is settled now, the string,
and the characters counted. -/
def processCandidateCharacter (character : Text) (t : StreamedTextState) (characters : Int) :
    Bool × StreamedTextState × Int :=
  let settled (disposition : TextDisposition) : StreamedTextState :=
    { t with disposition := disposition, heldCharacters := 0 }
  if t.prefixText.length < 5 then
    let prefixText := t.prefixText ++ character
    if asciiLower prefixText ≠ (text "data:").take prefixText.length then
      (true, { settled .count with prefixText := prefixText }, characters)
    else
      (false, { t with prefixText := prefixText }, characters)
  else if character = text "," then
    if asciiLower t.headerTail = text ";base64" then
      (true, settled .skip, characters - t.heldCharacters)
    else
      (true, settled .count, characters)
  else
    let headerTail := t.headerTail ++ character
    (false, { t with headerTail := headerTail.drop (headerTail.length - 7) }, characters)

/-- The characters up to the one that settles what the string is. -/
def processCandidateCharacters :
    List Text → StreamedTextState → Int → StreamedTextState × Int
  | [], t, characters => (t, characters)
  | character :: rest, t, characters =>
    match processCandidateCharacter character t characters with
    | (true, t, characters) => (t, characters)
    | (false, t, characters) => processCandidateCharacters rest t characters

/-- A further fragment of the streamed string `t`. -/
def continueStreamedText (key value : Text) (t : StreamedTextState) (o : Observation) :
    Observation :=
  match t.disposition with
  | .count => recordOutputCharacters value.length o
  | .skip => o
  | .candidate =>
    let heldCharacters := t.heldCharacters + value.length
    let totalCharacters := o.estimate.characters + value.length
    if isSafeInteger heldCharacters = false ∨ isSafeInteger totalCharacters = false then
      taintOutputEstimate o
    else
      let p := processCandidateCharacters (stringCharacters value)
        { t with heldCharacters := heldCharacters } totalCharacters
      publishOutputEstimate
        ((o.withStreamedTexts (o.estimate.streamedTexts.set key p.1)).withCharacters p.2)

def appendStreamedOutputText (key : Text) (value : Option Json) (o : Observation) : Observation :=
  match Json.string? value with
  | none => o
  | some value =>
    if o.estimate.overflow ∨ value.length = 0 then o
    else
      match o.estimate.streamedTexts.get? key with
      | some t => continueStreamedText key value t o
      | none =>
        if MAX_STREAMED_TEXT_FIELDS ≤ o.estimate.streamedTexts.values.length then
          taintOutputEstimate o
        else
          let t : StreamedTextState := ⟨.candidate, 0, [], []⟩
          continueStreamedText key value t
            (o.withStreamedTexts (o.estimate.streamedTexts.set key t))

def flushStreamedOutputText (o : Observation) (key : Text) : Observation :=
  o.withStreamedTexts (o.estimate.streamedTexts.delete key)

/-- The keys under a prefix. -/
def keysUnder (keyPrefix : Text) (keys : List Text) : List Text :=
  keys.filter fun key => key.startsWith (keyPrefix ++ text ":")

def flushStreamedOutputTextPrefix (keyPrefix : Text) (o : Observation) : Observation :=
  (keysUnder keyPrefix o.estimate.streamedTexts.keys).foldl flushStreamedOutputText o

def flushAllStreamedOutputText (o : Observation) : Observation :=
  o.estimate.streamedTexts.keys.foldl flushStreamedOutputText o

def recordToolArguments (value : Option Json) (o : Observation) : Observation :=
  match argumentCharacters value with
  | none => taintOutputEstimate o
  | some characters => recordOutputCharacters characters o

/-- A further fragment of the arguments under `key`. -/
def appendArgumentText (key value : Text) (o : Observation) : Observation :=
  let prior := o.estimate.pendingArguments.get? key
  let nextSize := o.estimate.pendingArgumentCharacters + value.length
  if prior = none ∧ MAX_PENDING_TOOL_CALLS ≤ o.estimate.pendingArguments.values.length then
    taintOutputEstimate o
  else if isSafeInteger nextSize = false ∨ MAX_PENDING_ARGUMENT_CHARS < nextSize then
    taintOutputEstimate o
  else
    publishOutputEstimate
      (o.withPendingArguments
        (o.estimate.pendingArguments.set key (prior.getD [] ++ value)) nextSize)

def appendToolArguments (key : Text) (value : Option Json) (o : Observation) : Observation :=
  if o.estimate.overflow then o
  else
    match value with
    | some (.str value) => if value.length = 0 then o else appendArgumentText key value o
    | value => recordToolArguments value o

def flushToolArguments (o : Observation) (key : Text) : Observation :=
  match o.estimate.pendingArguments.get? key with
  | none => o
  | some value =>
    publishOutputEstimate
      (recordToolArguments (some (.str value))
        (o.withPendingArguments (o.estimate.pendingArguments.delete key)
          (o.estimate.pendingArgumentCharacters - value.length)))

def flushAllToolArguments (o : Observation) : Observation :=
  o.estimate.pendingArguments.keys.foldl flushToolArguments o

def flushToolArgumentsPrefix (keyPrefix : Text) (o : Observation) : Observation :=
  (keysUnder keyPrefix o.estimate.pendingArguments.keys).foldl flushToolArguments o

/-! ## What the operations leave alone -/

/-- The operation leaves the reported fields alone and keeps the taint. -/
structure EstimatesOnly (f : Observation → Observation) : Prop where
  reported : ∀ o, (f o).reported = o.reported
  tainted : ∀ o, o.Tainted → (f o).Tainted

namespace EstimatesOnly

theorem id : EstimatesOnly fun o => o :=
  ⟨fun _ => rfl, fun _ h => h⟩

theorem comp {f g : Observation → Observation} (hf : EstimatesOnly f) (hg : EstimatesOnly g) :
    EstimatesOnly fun o => f (g o) where
  reported o := (hf.reported _).trans (hg.reported o)
  tainted _ h := hf.tainted _ (hg.tainted _ h)

theorem foldl {α : Type*} {f : Observation → α → Observation}
    (h : ∀ a, EstimatesOnly fun o => f o a) (l : List α) : EstimatesOnly fun o => l.foldl f o := by
  induction l with
  | nil => exact .id
  | cons a l ih => exact ih.comp (h a)

theorem pointwise {f : Observation → Observation}
    (h : ∀ o, ∃ g, EstimatesOnly g ∧ f o = g o) : EstimatesOnly f where
  reported o := by
    obtain ⟨g, hg, ho⟩ := h o
    rw [ho, hg.reported]
  tainted o ht := by
    obtain ⟨g, hg, ho⟩ := h o
    rw [ho]
    exact hg.tainted o ht

end EstimatesOnly

theorem taintOutputEstimate_tainted (o : Observation) : (taintOutputEstimate o).Tainted :=
  ⟨rfl, rfl⟩

theorem estimatesOnly_taint : EstimatesOnly taintOutputEstimate :=
  ⟨fun _ => rfl, fun o _ => taintOutputEstimate_tainted o⟩

theorem estimatesOnly_publish : EstimatesOnly publishOutputEstimate where
  reported _ := rfl
  tainted _ h := ⟨h.overflow, if_pos (.inl h.overflow)⟩

theorem estimatesOnly_withCharacters (n : Int) : EstimatesOnly (·.withCharacters n) :=
  ⟨fun _ => rfl, fun _ h => ⟨h.overflow, h.absent⟩⟩

theorem estimatesOnly_withStreamedTexts (texts : OrderedMap Text StreamedTextState) :
    EstimatesOnly (·.withStreamedTexts texts) :=
  ⟨fun _ => rfl, fun _ h => ⟨h.overflow, h.absent⟩⟩

theorem estimatesOnly_withPendingArguments (arguments : OrderedMap Text Text) (n : Int) :
    EstimatesOnly (·.withPendingArguments arguments n) :=
  ⟨fun _ => rfl, fun _ h => ⟨h.overflow, h.absent⟩⟩

theorem estimatesOnly_recordOutputCharacters (n : Nat) :
    EstimatesOnly (recordOutputCharacters n) := by
  refine .pointwise fun o => ?_
  unfold recordOutputCharacters
  split
  · exact ⟨_, .id, rfl⟩
  dsimp only
  split
  · exact ⟨_, estimatesOnly_taint, rfl⟩
  · exact ⟨_, estimatesOnly_publish.comp (estimatesOnly_withCharacters _), rfl⟩

theorem estimatesOnly_recordOutputText (value : Option Json) :
    EstimatesOnly (recordOutputText value) := by
  refine .pointwise fun o => ?_
  unfold recordOutputText
  split
  · exact ⟨_, .id, rfl⟩
  split
  · exact ⟨_, .id, rfl⟩
  · exact ⟨_, estimatesOnly_recordOutputCharacters _, rfl⟩

theorem estimatesOnly_continueStreamedText (key value : Text) (t : StreamedTextState) :
    EstimatesOnly (continueStreamedText key value t) := by
  refine .pointwise fun o => ?_
  unfold continueStreamedText
  split
  · exact ⟨_, estimatesOnly_recordOutputCharacters _, rfl⟩
  · exact ⟨_, .id, rfl⟩
  dsimp only
  split
  · exact ⟨_, estimatesOnly_taint, rfl⟩
  · exact ⟨_, estimatesOnly_publish.comp
      ((estimatesOnly_withCharacters _).comp (estimatesOnly_withStreamedTexts _)), rfl⟩

variable (key : Text)

theorem estimatesOnly_appendStreamedOutputText (value : Option Json) :
    EstimatesOnly (appendStreamedOutputText key value) := by
  refine .pointwise fun o => ?_
  unfold appendStreamedOutputText
  split
  · exact ⟨_, .id, rfl⟩
  split
  · exact ⟨_, .id, rfl⟩
  split
  · exact ⟨_, estimatesOnly_continueStreamedText _ _ _, rfl⟩
  split
  · exact ⟨_, estimatesOnly_taint, rfl⟩
  · exact ⟨_, (estimatesOnly_continueStreamedText _ _ _).comp
      (estimatesOnly_withStreamedTexts _), rfl⟩

theorem estimatesOnly_flushStreamedOutputText : EstimatesOnly (flushStreamedOutputText · key) :=
  .pointwise fun _ => ⟨_, estimatesOnly_withStreamedTexts _, rfl⟩

theorem estimatesOnly_flushStreamedOutputTextPrefix (keyPrefix : Text) :
    EstimatesOnly (flushStreamedOutputTextPrefix keyPrefix) :=
  .pointwise fun _ => ⟨_, .foldl estimatesOnly_flushStreamedOutputText _, rfl⟩

theorem estimatesOnly_flushAllStreamedOutputText : EstimatesOnly flushAllStreamedOutputText :=
  .pointwise fun _ => ⟨_, .foldl estimatesOnly_flushStreamedOutputText _, rfl⟩

theorem estimatesOnly_recordToolArguments (value : Option Json) :
    EstimatesOnly (recordToolArguments value) := by
  refine .pointwise fun o => ?_
  unfold recordToolArguments
  split
  · exact ⟨_, estimatesOnly_taint, rfl⟩
  · exact ⟨_, estimatesOnly_recordOutputCharacters _, rfl⟩

theorem estimatesOnly_appendArgumentText (key value : Text) :
    EstimatesOnly (appendArgumentText key value) := by
  refine .pointwise fun o => ?_
  unfold appendArgumentText
  dsimp only
  split
  · exact ⟨_, estimatesOnly_taint, rfl⟩
  split
  · exact ⟨_, estimatesOnly_taint, rfl⟩
  · exact ⟨_, estimatesOnly_publish.comp (estimatesOnly_withPendingArguments _ _), rfl⟩

theorem estimatesOnly_appendToolArguments (value : Option Json) :
    EstimatesOnly (appendToolArguments key value) := by
  refine .pointwise fun o => ?_
  unfold appendToolArguments
  split
  · exact ⟨_, .id, rfl⟩
  split
  · split
    · exact ⟨_, .id, rfl⟩
    · exact ⟨_, estimatesOnly_appendArgumentText _ _, rfl⟩
  · exact ⟨_, estimatesOnly_recordToolArguments _, rfl⟩

theorem estimatesOnly_flushToolArguments : EstimatesOnly (flushToolArguments · key) := by
  refine .pointwise fun o => ?_
  unfold flushToolArguments
  split
  · exact ⟨_, .id, rfl⟩
  · exact ⟨_, estimatesOnly_publish.comp ((estimatesOnly_recordToolArguments _).comp
      (estimatesOnly_withPendingArguments _ _)), rfl⟩

theorem estimatesOnly_flushAllToolArguments : EstimatesOnly flushAllToolArguments :=
  .pointwise fun _ => ⟨_, .foldl estimatesOnly_flushToolArguments _, rfl⟩

theorem estimatesOnly_flushToolArgumentsPrefix (keyPrefix : Text) :
    EstimatesOnly (flushToolArgumentsPrefix keyPrefix) :=
  .pointwise fun _ => ⟨_, .foldl estimatesOnly_flushToolArguments _, rfl⟩

end LlmRelay
