import LlmRelay.Ecma.Number

/-!
# Dates

Time values and UTC calendar boundaries: the day and the month an instant falls
in, in milliseconds since the epoch.

## Main definitions

* `timeClip`: the time value of a number;
* `civilDay`: the day of the month of a day count;
* `startOfMinute`, `startOfDay`, `startOfMonth`: the boundaries.
-/

namespace Ecma

/-- Milliseconds in a minute. -/
def msPerMinute : ℤ := 60000

/-- Milliseconds in a day. -/
def msPerDay : ℤ := 86400000

/-- Truncation towards zero. -/
def truncate (q : ℚ) : ℤ :=
  if q < 0 then -(-q).floor else q.floor

/-- The time value of a number: an integer within the range of dates. -/
def timeClip : Number → Option ℤ
  | .fin q =>
    let t := truncate q
    if t.natAbs ≤ 8640000000000000 then some t else none
  | _ => none

/-- The day of the month (from 1) of a day count since the epoch, by eras of
400 years that begin in March. -/
def civilDay (day : ℤ) : ℤ :=
  let z := day + 719468
  let dayOfEra := z % 146097
  let yearOfEra := (dayOfEra - dayOfEra / 1460 + dayOfEra / 36524 - dayOfEra / 146096) / 365
  let dayOfYear := dayOfEra - (365 * yearOfEra + yearOfEra / 4 - yearOfEra / 100)
  let shiftedMonth := (5 * dayOfYear + 2) / 153
  dayOfYear - (153 * shiftedMonth + 2) / 5 + 1

/-- The first instant of the minute of a finite number. -/
def startOfMinute (q : ℚ) : ℤ :=
  (q / msPerMinute).floor * msPerMinute

/-- The first instant of the UTC day of a time value. -/
def startOfDay (t : ℤ) : ℤ :=
  t / msPerDay * msPerDay

/-- The first instant of the UTC month of a time value. -/
def startOfMonth (t : ℤ) : ℤ :=
  (t / msPerDay - (civilDay (t / msPerDay) - 1)) * msPerDay

example : startOfMonth 1709251199999 = 1706745600000 := by decide

end Ecma
