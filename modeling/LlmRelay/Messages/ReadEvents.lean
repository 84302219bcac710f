import LlmRelay.Messages.Reconstruct
import LlmRelay.Streams.WrittenEvents

/-!
# Written events are read back

`reconstructFromSse` splits a stream into frames and their lines; of a stream that the proxy wrote
it finds the data of the events, in order.

## Main definitions

* `Emission.json`, `runEvents`: the data of an event, and the fold over some of them.

## Main results

* `iterateDataPayloads_encodeAll`: the payloads of written events are their data;
* `reconstructFromSse_encodeAll`: the events that are written are the events that are read.
-/

namespace LlmRelay

open Ecma

/-! ## Frames of written events -/

theorem lineEnd?_cons_of_ne {c : CodeUnit} (hlf : c ≠ lf) (hcr : c ≠ cr) (t : Text) :
    lineEnd? (c :: t) = none := by
  simp only [lineEnd?, if_neg hlf, if_neg hcr]

theorem separator?_cons_of_ne {c : CodeUnit} (hlf : c ≠ lf) (hcr : c ≠ cr) (t : Text) :
    separator? (c :: t) = none := by
  rw [separator?, lineEnd?_cons_of_ne hlf hcr]

theorem splitFramesFrom_printable {p : Text} (h : Printable p) (piece t : Text) :
    splitFramesFrom 0 piece (p ++ t) = splitFramesFrom 0 (piece ++ p) t := by
  induction p generalizing piece with
  | nil => rw [List.nil_append, List.append_nil]
  | cons c p ih =>
    obtain ⟨hc, hp⟩ := printable_cons.mp h
    have hlf : c ≠ lf := by
      rintro rfl
      exact absurd hc (by decide)
    have hcr : c ≠ cr := by
      rintro rfl
      exact absurd hc (by decide)
    rw [List.cons_append, splitFramesFrom, separator?_cons_of_ne hlf hcr]
    show splitFramesFrom 0 (piece ++ [c]) (p ++ t) = _
    rw [ih hp, List.append_assoc, List.singleton_append]

theorem splitFramesFrom_written {a b : Text} (ha : Printable a) (hb : Printable b) (hne : b ≠ [])
    (t : Text) : splitFramesFrom 0 [] (a ++ lf :: b ++ lf :: lf :: t)
      = (a ++ lf :: b) :: splitFramesFrom 0 [] t := by
  obtain ⟨c, b', rfl⟩ := List.exists_cons_of_ne_nil hne
  obtain ⟨hc, -⟩ := printable_cons.mp hb
  have hlf : c ≠ lf := by
    rintro rfl
    exact absurd hc (by decide)
  have hcr : c ≠ cr := by
    rintro rfl
    exact absurd hc (by decide)
  have hinner : separator? (lf :: (c :: b' ++ lf :: lf :: t)) = none := by
    have hend : lineEnd? (lf :: (c :: b' ++ lf :: lf :: t))
        = some ([lf], c :: b' ++ lf :: lf :: t) := rfl
    rw [separator?, hend, List.cons_append]
    dsimp only
    rw [lineEnd?_cons_of_ne hlf hcr]
    rfl
  have houter : separator? (lf :: lf :: t) = some ([lf, lf], t) := rfl
  rw [List.append_assoc, splitFramesFrom_printable ha, List.cons_append, splitFramesFrom, hinner]
  show splitFramesFrom 0 (a ++ [lf]) (c :: b' ++ lf :: lf :: t) = _
  rw [splitFramesFrom_printable hb, splitFramesFrom]
  show _ :: splitFramesFrom 0 [] t = _
  rw [List.append_assoc, List.singleton_append]

/-- The data of an event. -/
def Emission.json (e : Emission) : Json :=
  .obj ((text "type", .str e.type) :: e.data)

theorem trimStart_stringify_obj (fields : List (Text × Json)) :
    Text.trimStart (space :: (Json.obj fields).stringify) = (Json.obj fields).stringify := by
  rfl

theorem dataPayload?_written {name : Text} (hname : Printable name) (fields : List (Text × Json)) :
    dataPayload? (text "event: " ++ name ++ text "\ndata: " ++ (Json.obj fields).stringify)
      = some (Json.obj fields).stringify := by
  have hlines := splitLines_written hname (Json.printable_stringify (.obj fields))
  have hkept : ([text "event: " ++ name, text "data: " ++ (Json.obj fields).stringify].filter
      fun line => Text.startsWith line (text "data:"))
      = [text "data: " ++ (Json.obj fields).stringify] := by
    rfl
  rw [dataPayload?, hlines, hkept, List.map_singleton]
  show (if [Text.trimStart (space :: (Json.obj fields).stringify)] = [] then none else _) = _
  rw [Text.join, List.intercalate_singleton]
  exact congrArg some (trimStart_stringify_obj fields)

/-- **The payloads of written events** are their data. -/
theorem iterateDataPayloads_encodeAll {es : List Emission} (h : ∀ e ∈ es, Printable e.type) :
    iterateDataPayloads (encodeAll es) = es.map fun e => e.json.stringify := by
  induction es with
  | nil => rfl
  | cons e rest ih =>
    have htype := h e List.mem_cons_self
    have hevent : Printable (text "event: " ++ e.type) :=
      printable_append.mpr ⟨by decide, htype⟩
    have hdata : Printable (text "data: " ++ e.json.stringify) :=
      printable_append.mpr ⟨by decide, Json.printable_stringify _⟩
    have hsplit := splitFramesFrom_written hevent hdata (List.cons_ne_nil _ _) (encodeAll rest)
    have hencode : encodeAll (e :: rest) = text "event: " ++ e.type ++ lf ::
        (text "data: " ++ e.json.stringify) ++ lf :: lf :: encodeAll rest := by
      show e.encode ++ encodeAll rest = _
      rw [Emission.encode, Emission.json]
      show text "event: " ++ e.type ++ (lf :: text "data: ") ++ _ ++ [lf, lf] ++ _ = _
      simp only [List.append_assoc, List.cons_append, List.nil_append]
    have hframe : text "event: " ++ e.type ++ lf :: (text "data: " ++ e.json.stringify)
        = text "event: " ++ e.type ++ text "\ndata: " ++ e.json.stringify := by
      rw [List.append_assoc (text "event: " ++ e.type)]
      rfl
    have hrest := ih fun f hf => h f (List.mem_cons_of_mem e hf)
    rw [iterateDataPayloads, splitFrames] at hrest ⊢
    rw [hencode, hsplit, hframe, List.filterMap_cons, Emission.json, dataPayload?_written htype,
      hrest, List.map_cons, Emission.json]

/-! ## The fold -/

/-- Some events, one after the other. -/
def runEvents (r : Reconstruction) (es : List Emission) : Option Reconstruction :=
  es.foldlM (fun r e => foldEvent r e.json) r

variable (r : Reconstruction)

@[simp] theorem runEvents_nil : runEvents r [] = some r := rfl

theorem runEvents_cons (e : Emission) (es : List Emission) :
    runEvents r (e :: es) = (foldEvent r e.json).bind fun r => runEvents r es := rfl

theorem runEvents_append (es fs : List Emission) :
    runEvents r (es ++ fs) = (runEvents r es).bind fun r => runEvents r fs := by
  rw [runEvents, List.foldlM_append]
  rfl

/-- **The events that are written are the events that are read.** -/
theorem reconstructFromSse_encodeAll {es : List Emission}
    (h : ∀ e ∈ es, Printable e.type ∧ e.json.Normal) :
    reconstructFromSse (encodeAll es) = (runEvents .new es).map Reconstruction.message := by
  have hfold : ∀ r : Reconstruction,
      (es.map fun e => e.json.stringify).foldlM foldPayload r = runEvents r es := by
    intro r
    induction es generalizing r with
    | nil => rfl
    | cons e rest ih =>
      obtain ⟨-, hnormal⟩ := h e List.mem_cons_self
      rw [List.map_cons, List.foldlM_cons, foldPayload, Json.parse_stringify hnormal]
      show (foldEvent r e.json).bind _ = _
      congr 1
      funext r'
      exact ih (fun f hf => h f (List.mem_cons_of_mem e hf)) r'
  rw [reconstructFromSse, iterateDataPayloads_encodeAll fun e he => (h e he).1, hfold]

end LlmRelay
