import LlmRelay.Ecma.Text

/-!
# Tool-call dialect markers

The substrings that mean a tool-call envelope is present (`tool-dialects.ts`),
and how a partial text is cut before one.

## Main definitions

* `DIALECT_MARKERS`, `ALL_MARKERS`: the markers, by dialect and together;
* `detectDialect`: the first dialect whose marker a text holds;
* `scanForMarker`: how much of a partial text is safe to forward;
* `markerStart`: where the envelope begins.
-/

namespace LlmRelay

open Ecma

/-- The relay's error code for a refused destructive call. -/
def DIALECT_REFUSED_DESTRUCTIVE_CODE : Text :=
  text "tool_dialect_refused_destructive"

/-- The markers of each dialect, in the order of detection. -/
def DIALECT_MARKERS : List (Text × List Text) :=
  [ (text "deepseek",
      [text "｜tool▁calls▁begin｜", text "｜tool▁call▁begin｜", text "｜tool▁sep｜",
        text "｜tool▁call▁end｜", text "｜tool▁calls▁end｜"]),
    (text "kimi",
      [text "|tool_calls_section_begin|", text "|tool_call_begin|",
        text "|tool_call_argument_begin|", text "|tool_call_end|",
        text "|tool_calls_section_end|"]),
    (text "dsml", [text "｜DSML｜tool_calls", text "｜DSML｜invoke", text "｜DSML｜parameter"]),
    (text "hermes", [text "<tool_call>", text "</tool_call>"]),
    (text "xml-invoke",
      [text "<function_calls>", text "</function_calls>", text "<invoke name=",
        text "</invoke>"]),
    (text "functionary", [text "<function="]) ]

/-- Every marker. -/
def ALL_MARKERS : List Text :=
  DIALECT_MARKERS.flatMap Prod.snd

/-- The length of the longest marker. -/
def LONGEST_MARKER : Nat :=
  (ALL_MARKERS.map List.length).foldl max 0

/-- The first dialect with a marker in the text. -/
def detectDialect (t : Text) : Option Text :=
  (DIALECT_MARKERS.find? fun d => d.2.any fun m => t.includes m).map Prod.fst

/-- Whether a marker has landed, and what is safe to forward. -/
structure MarkerScan where
  safeLen : Nat
  hit : Bool
  deriving DecidableEq, Repr

/-- The first position from `i` on whose tail could still grow into a marker. -/
def holdFrom (t : Text) : Nat → Nat → Option Nat
  | _, 0 => none
  | i, n + 1 =>
    if ALL_MARKERS.any fun m => m.startsWith (t.drop i) then some i else holdFrom t (i + 1) n

/-- How much of a partial text is safe to forward: everything before the longest
tail that could still grow into a marker. -/
def scanForMarker (t : Text) : MarkerScan :=
  if ALL_MARKERS.any fun m => t.includes m then ⟨t.length, true⟩
  else
    let start := t.length - (LONGEST_MARKER - 1)
    ⟨(holdFrom t start (t.length - start)).getD t.length, false⟩

/-- The leftmost position of a marker. -/
def firstMarker (t : Text) : Option Nat :=
  ALL_MARKERS.foldl (fun best m =>
    match t.indexOf m, best with
    | some i, none => some i
    | some i, some b => if i < b then some i else some b
    | none, best => best) none

/-- The position where the envelope begins: a tag opener right before the
leftmost marker belongs to it. -/
def markerStart (t : Text) : Option Nat :=
  (firstMarker t).map fun best =>
    if best = 0 then 0
    else if 2 ≤ best ∧ Text.startsWith (t.drop (best - 2)) (text "</") then best - 2
    else if t[best - 1]? = some 0x3C then best - 1
    else best

theorem detectDialect_isSome {t m : Text} (hm : m ∈ ALL_MARKERS) (h : m <:+: t) :
    ∃ dialect, detectDialect t = some dialect := by
  obtain ⟨d, hd, hmd⟩ := List.mem_flatMap.mp hm
  have hany : (d.2.any fun m => t.includes m) = true :=
    List.any_eq_true.mpr ⟨m, hmd, Text.includes_iff.mpr h⟩
  have hfind : (DIALECT_MARKERS.find? fun d => d.2.any fun m => t.includes m).isSome = true :=
    List.find?_isSome.mpr ⟨d, hd, hany⟩
  obtain ⟨d', hd'⟩ := Option.isSome_iff_exists.mp hfind
  exact ⟨d'.1, by rw [detectDialect, hd']; rfl⟩

end LlmRelay
