import LlmRelay.Ecma.Utf8

/-!
# Safe identifiers

The identifiers that the dashboard contract admits (`dashboard-contract.ts`): texts without
control characters and lone surrogates, of bounded length in UTF-8.

## Main definitions

* `utf8ByteLength`: the length of a text in UTF-8, where it is admitted;
* `isDashboardSafeId`: the admitted identifiers.
-/

namespace LlmRelay.Dashboard

open Ecma

def DASHBOARD_SAFE_ID_MAX_BYTES : Nat := 256

/-- Is the code unit a control character? -/
def isControl (c : CodeUnit) : Bool :=
  c ≤ 0x1F || (0x7F ≤ c && c ≤ 0x9F)

/-- How many bytes a code unit that is no surrogate takes. -/
def unitBytes (c : CodeUnit) : Nat :=
  if c ≤ 0x7F then 1 else if c ≤ 0x7FF then 2 else 3

/-- The length in UTF-8; a control character or an unpaired surrogate has none. -/
def utf8ByteLength : Text → Option Nat
  | [] => some 0
  | [c] => if isControl c || isHighSurrogate c || isLowSurrogate c then none else some (unitBytes c)
  | c :: d :: rest =>
    if isControl c then none
    else if isHighSurrogate c then
      if isLowSurrogate d then (utf8ByteLength rest).map (4 + ·) else none
    else if isLowSurrogate c then none
    else (utf8ByteLength (d :: rest)).map (unitBytes c + ·)

def isDashboardSafeId (value : Text) : Bool :=
  1 ≤ value.length && (utf8ByteLength value).any fun bytes => bytes ≤ DASHBOARD_SAFE_ID_MAX_BYTES

end LlmRelay.Dashboard
