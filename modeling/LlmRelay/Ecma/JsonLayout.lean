import LlmRelay.Ecma.Json

/-!
# JSON texts with white space

`JSON.stringify` with the number of spaces that one level is indented by.

## Main definitions

* `Json.stringifyIndented`: `JSON.stringify` with a `space` argument.
-/

namespace Ecma.Json

/-- A line break and the indentation after it. -/
def lineBreak (indent : Nat) : Text :=
  lf :: List.replicate indent space

mutual
/-- A value at a level that is indented by `indent` spaces. -/
def layoutValue (gap indent : Nat) : Json → Text
  | arr (v :: items) =>
    0x5B :: lineBreak (indent + gap) ++ layoutItems gap (indent + gap) (v :: items)
      ++ lineBreak indent ++ [0x5D]
  | obj (p :: fields) =>
    0x7B :: lineBreak (indent + gap) ++ layoutFields gap (indent + gap) (p :: fields)
      ++ lineBreak indent ++ [0x7D]
  | v => stringify v

/-- The elements of an array, each on its line. -/
def layoutItems (gap indent : Nat) : List Json → Text
  | [] => []
  | [v] => layoutValue gap indent v
  | v :: w :: rest =>
    layoutValue gap indent v ++ 0x2C :: lineBreak indent ++ layoutItems gap indent (w :: rest)

/-- The properties of an object, each on its line. -/
def layoutFields (gap indent : Nat) : List (Text × Json) → Text
  | [] => []
  | [(k, v)] => quote k ++ 0x3A :: space :: layoutValue gap indent v
  | (k, v) :: p :: rest =>
    quote k ++ 0x3A :: space :: layoutValue gap indent v ++ 0x2C :: lineBreak indent
      ++ layoutFields gap indent (p :: rest)
end

/-- `JSON.stringify(v, null, gap)`; a gap has at most ten spaces. -/
def stringifyIndented (gap : Nat) (v : Json) : Text :=
  if gap = 0 then stringify v else layoutValue (min gap 10) 0 v

example : stringifyIndented 2 (.obj [(text "a", .arr [.null])])
    = text "\x7b\n  \"a\": [\n    null\n  ]\n\x7d" := by decide

end Ecma.Json
