import LlmRelay.Ecma.JsonText
import LlmRelay.Streams.SseEvents

/-!
# The lines of written events

An event that the proxy writes has one `event:` line and one `data:` line, because a JSON text has
no control characters.

## Main results

* `splitLines_written`: the two lines of a written event.
-/

namespace LlmRelay

open Ecma

/-- A written event has two lines. -/
theorem splitLines_written {name data : Text} (hname : Printable name) (hdata : Printable data) :
    (text "event: " ++ name ++ text "\ndata: " ++ data).splitLines
      = [text "event: " ++ name, text "data: " ++ data] := by
  have hjoin : text "event: " ++ name ++ text "\ndata: " ++ data
      = Text.join [lf] [text "event: " ++ name, text "data: " ++ data] := by
    rw [Text.join, List.intercalate_cons_cons, List.intercalate_singleton]
    simp only [List.append_assoc]
    rfl
  rw [hjoin, splitLines_join (List.cons_ne_nil _ _)]
  intro line hline
  rcases List.mem_pair.mp hline with rfl | rfl
  · exact printable_append.mpr ⟨by decide, hname⟩
  · exact printable_append.mpr ⟨by decide, hdata⟩

theorem not_startsWith_data (name : Text) :
    Text.startsWith (text "event: " ++ name) (text "data:") = false := rfl

end LlmRelay
