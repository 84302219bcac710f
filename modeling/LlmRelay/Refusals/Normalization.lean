import LlmRelay.Ecma.JsonLiterals
import LlmRelay.Ecma.LowerCase
import LlmRelay.Ecma.Replacement
import LlmRelay.Refusals.InterpretationStore

/-!
# The normal form of a refusal message

`normalizeRefusalMessage` of `refusal-interpretation.ts`: the message is taken out of the
envelopes around it, and what varies between two occurrences of one refusal is taken out of the
message.

## Main definitions

* `findMessage`, `fieldFromUnparseable`, `extractMessage`: the message inside a body;
* `stripRelayWrapper`: the text behind the wrapper of the relay;
* `unwrap`: both, round after round;
* `redact`: lower case, placeholders, and single spaces;
* `normalizeRefusalMessage`: the normal form.
-/

namespace LlmRelay.Refusals

open Ecma
open Ecma.Regex

/-! ## The message of a body -/

/-- The fields that carry a message, in order of preference. -/
def messageFields : List Text :=
  [text "message", text "detail", text "error", text "title"]

/-- The first field that is a string, or has a message inside. -/
def messageOfFields (inside : Json → Option Text) (fields : List (Text × Json)) :
    List Text → Option Text
  | [] => none
  | field :: rest =>
    match lookupEntry field fields with
    | some (.str s) => some s
    | some (.arr items) => (inside (.arr items)).or (messageOfFields inside fields rest)
    | some (.obj entries) => (inside (.obj entries)).or (messageOfFields inside fields rest)
    | _ => messageOfFields inside fields rest

/-- `findMessage` with some levels left; inside a value only a message that is not empty
counts. -/
def findMessageWithin : Nat → Json → Option Text
  | 0, _ => none
  | levels + 1, v =>
    let inside (v : Json) : Option Text := (findMessageWithin levels v).filter (· ≠ [])
    match v with
    | .str s => some s
    | .arr items => items.findSome? inside
    | .obj fields => messageOfFields inside fields messageFields
    | _ => none

/-- `findMessage`: depths `0` to `6`. -/
def findMessage (v : Json) : Option Text :=
  findMessageWithin 7 v

/-- `"field"\s*:\s*"`. -/
def fieldOpening (field : Text) : Regex :=
  seq (lit (0x22 :: field ++ [0x22])) (seq spaces (seq (lit (text ":")) (seq spaces (lit [0x22]))))

/-- `((?:[^"\\]|\\.)*)(?:"|$)`: the characters up to a quote, or all. -/
def quotedValue : Text → Option Text
  | [] => some []
  | c :: rest =>
    if c = 0x22 then some []
    else if c = 0x5C then
      match rest with
      | [] => none
      | e :: rest => if isLineTerminator e then none else (quotedValue rest).map ([c, e] ++ ·)
    else (quotedValue rest).map (c :: ·)

/-- The value of a field, where it stands leftmost. -/
def fieldValue (field : Text) : Text → Option Text
  | [] => none
  | c :: rest =>
    ((runs (fieldOpening field) (c :: rest)).findSome? fun m => quotedValue m.rest).or
      (fieldValue field rest)

/-- The unit of `uXXXX` at the head of a text. -/
def unicodeEscape? : Text → Option CodeUnit
  | u :: h₁ :: h₂ :: h₃ :: h₄ :: _ => if u = 0x75 then Json.hex4? h₁ h₂ h₃ h₄ else none
  | _ => none

/-- `value.replace(/\\u([0-9a-fA-F]{4})/g, …)`; `skip` units belong to the last escape. -/
def unescapeUnits : Nat → Text → Text
  | _, [] => []
  | skip + 1, _ :: rest => unescapeUnits skip rest
  | 0, c :: rest =>
    match if c = 0x5C then unicodeEscape? rest else none with
    | some escaped => escaped :: unescapeUnits 5 rest
    | none => c :: unescapeUnits 0 rest

/-- `value.replace(/\\(.)/g, (_, ch) => simple[ch] ?? ch)`. -/
def unescapeSimple : Text → Text
  | [] => []
  | c :: rest =>
    if c = 0x5C then
      match rest with
      | [] => [c]
      | e :: rest' =>
        -- `.` does not match it, and it starts no escape itself
        if isLineTerminator e then c :: e :: unescapeSimple rest'
        else (Json.escape? e).getD e :: unescapeSimple rest'
    else c :: unescapeSimple rest

def unescapeJsonString (value : Text) : Text :=
  unescapeSimple (unescapeUnits 0 value)

/-- The message of a text whose JSON does not parse. -/
def fieldFromUnparseable (t : Text) : Option Text :=
  messageFields.findSome? fun field =>
    ((fieldValue field t).filter (· ≠ [])).map unescapeJsonString

def isBracket (c : CodeUnit) : Bool :=
  c == 0x5B || c == 0x7B

/-- The text, and its end from the first bracket on, if something stands before it. -/
def candidates (t : Text) : List Text :=
  match t.findIdx? isBracket with
  | some (before + 1) => [t, t.drop (before + 1)]
  | _ => [t]

def extractMessage (t : Text) : Option Text :=
  ((candidates t).findSome? fun candidate =>
    ((Json.parse candidate).bind findMessage).filter (· ≠ [])).or (fieldFromUnparseable t)

/-! ## The wrapper of the relay -/

/-- A word in lower case, in either case. -/
def anyCase : Text → Regex
  | [] => lit []
  | c :: w => seq (unit fun d => d == c || (isCapital d && d + 0x20 == c)) (anyCase w)

def notQuote (c : CodeUnit) : Bool := c != 0x22

def notParenthesis (c : CodeUnit) : Bool := c != 0x29

/-- `RELAY_WRAPPER_PREFIX`: the status, perhaps a hint, and a colon. -/
def RELAY_WRAPPER_PREFIX : Regex :=
  seq (anyCase (text "openai backend http "))
    (seq (alt (times 3 (unit isDigit)) (anyCase (text "<n>")))
      (seq
        (opt
          (seq (anyCase (text " — model \""))
            (seq (upTo 256 (unit notQuote))
              (seq (anyCase (text "\" is not served by provider \""))
                (seq (upTo 128 (unit notQuote))
                  (seq (anyCase (text "\" ("))
                    (seq (upTo 200 (unit notParenthesis)) (lit (text ")")))))))))
        (seq (lit (text ":")) spaces)))

def stripRelayWrapper (t : Text) : Text :=
  match (runs RELAY_WRAPPER_PREFIX t).head? with
  | some m => m.rest
  | none => t

/-! ## Rounds -/

/-- One round: the message, without the wrapper. -/
def unwrapOnce (t : Text) : Text :=
  stripRelayWrapper ((extractMessage t).getD t)

/-- Rounds, until one changes nothing. -/
def unwrap : Nat → Text → Text
  | 0, t => t
  | rounds + 1, t => if unwrapOnce t = t then t else unwrap rounds (unwrapOnce t)

/-! ## Redaction -/

def notSpace (c : CodeUnit) : Bool := !isWhitespace c

/-- `https?:\/\/\S+`. -/
def urlPattern : Regex :=
  seq (lit (text "http")) (seq (opt (lit (text "s"))) (seq (lit (text "://")) (plus notSpace)))

/-- `[0-9a-f]`. -/
def isHexUnit (c : CodeUnit) : Bool :=
  isDigit c || (decide (0x61 ≤ c) && decide (c ≤ 0x66))

/-- The form of a uuid. -/
def uuidPattern : Regex :=
  let group (n : Nat) : Regex := times n (unit isHexUnit)
  let dash : Regex := lit (text "-")
  seq (group 8) (seq dash (seq (group 4) (seq dash (seq (group 4) (seq dash
    (seq (group 4) (seq dash (group 12))))))))

/-- `[0-9a-z_-]`, in either case. -/
def isTokenUnit (c : CodeUnit) : Bool :=
  isDigit c || isCapital c || (decide (0x61 ≤ c) && decide (c ≤ 0x7A)) || c == 0x5F || c == 0x2D

/-- `[0-9a-z_-]{24,}`. -/
def tokenPattern : Regex :=
  seq (times 24 (unit isTokenUnit)) (rep true isTokenUnit)

/-- `\d[\d,._]*`. -/
def numberPattern : Regex :=
  seq (unit isDigit) (rep true fun c => isDigit c || c == 0x2C || c == 0x2E || c == 0x5F)

def spacesPattern : Regex :=
  plus isWhitespace

/-- The chain of replacements, up to `trim`. -/
def redact (casing : LowerCasing) (t : Text) : Text :=
  let lowered := casing.toLowerCase t
  let withoutUrls := replaceAll urlPattern (text "<url>") lowered
  let withoutUuids := replaceAll uuidPattern (text "<id>") withoutUrls
  let withoutTokens := replaceAll tokenPattern (text "<id>") withoutUuids
  let withoutNumbers := replaceAll numberPattern (text "<n>") withoutTokens
  (replaceAll spacesPattern [space] withoutNumbers).trim

/-- How much of a body is read. -/
def MAX_BODY : Nat := 4096

/-- How much of a message is kept. -/
def MAX_SIGNATURE : Nat := 240

/-- How many envelopes are taken off. -/
def MAX_ROUNDS : Nat := 4

/-- The message that the envelopes of a body carry. -/
def carriedMessage (body : Text) : Text :=
  unwrap MAX_ROUNDS (body.take MAX_BODY)

def normalizeRefusalMessage (casing : LowerCasing) (body : Text) : Text :=
  (redact casing (carriedMessage body)).take MAX_SIGNATURE

end LlmRelay.Refusals
