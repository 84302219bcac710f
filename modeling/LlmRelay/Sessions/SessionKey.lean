import LlmRelay.Ecma.JsonRoundTrip
import LlmRelay.Ecma.LowerCase

/-!
# The key of a session

A request names its session in a header, or has the one of the first text of its user; the agent
that sent it qualifies the session. Both parts go into one string.

## Main definitions

* `deriveSessionKey hash r`: the key of the request `r`;
* `SessionIdentity`, `identityOf r`: the session and the agent the key stands for;
* `keyOf hash i`: the key of an identity.

## Main results

* `deriveSessionKey_eq`: the key of a request is the one of its identity;
* `keyOf_eq_iff`: identities with one key are the same, or their explicit sessions and their agents
  are one text when they are joined.
-/

namespace LlmRelay.Sessions

open Ecma

def STICKY_SESSION_HEADER : Text := text "x-llm-relay-session"

def CLAUDE_AGENT_ID_HEADER : Text := text "x-claude-code-agent-id"

/-- The value of a header. -/
inductive HeaderValue where
  | undefined
  | one (value : Text)
  | many (values : List Text)
  deriving DecidableEq

/-- What a key is derived from: the headers, in the order of the object, and the body. -/
structure SessionRequest where
  headers : List (Text × HeaderValue)
  reqJson : Option Json

/-! ## The first text of the user -/

def nonEmpty (t : Text) : Option Text :=
  if t.trim = [] then none else some t.trim

/-- The text of a block, where the block counts. -/
def blockText? (block : Json) : Option Text :=
  let type := Json.string? (block.get? (text "type"))
  if type = some (text "text") ∨ type = some (text "input_text") then
    (Json.string? (block.get? (text "text"))).filter fun t =>
      decide (t.trim ≠ []) && !Text.startsWith t.trimStart (text "<system-reminder>")
  else none

def contentText (content : Option Json) : Option Text :=
  match content with
  | some (.str t) => nonEmpty t
  | some (.arr blocks) =>
    let parts := blocks.filterMap blockText?
    if parts = [] then none else nonEmpty (Text.join [lf] parts)
  | _ => none

/-- The text of the first message of the user, also where it has none. -/
def firstUserMessageText (value : Option Json) : Option Text :=
  match value with
  | some (.arr items) =>
    (items.find? fun item => Json.string? (item.get? (text "role")) = some (text "user")).bind
      fun item => contentText (item.get? (text "content"))
  | _ => none

def firstUserText (reqJson : Option Json) : Option Text :=
  reqJson.bind fun body =>
    (firstUserMessageText (body.get? (text "messages"))).or <|
      match body.get? (text "input") with
      | some (.str t) => nonEmpty t
      | input => firstUserMessageText input

/-! ## The key -/

/-- What two parts are joined by. -/
def SEPARATOR : Text := text "::"

/-- A base, and behind it the agent that qualifies it. -/
def compound (base : Text) (agentId : Option Text) : Text :=
  match agentId with
  | some agent => base ++ SEPARATOR ++ agent
  | none => base

section Request

variable (lc : LowerCasing)

def normalizedHeader (headers : List (Text × HeaderValue)) (name : Text) : Option Text :=
  match (headers.find? fun header => lc.toLowerCase header.1 = name).map Prod.snd with
  | some (.one value) => nonEmpty value
  | some (.many (value :: _)) => nonEmpty value
  | _ => none

/-- The key of a request, for the hash of its text. -/
def deriveSessionKey (hash : Text → Text) (r : SessionRequest) : Option Text :=
  let agentId := normalizedHeader lc r.headers CLAUDE_AGENT_ID_HEADER
  match normalizedHeader lc r.headers STICKY_SESSION_HEADER with
  | some explicit => some (compound (text "hdr:" ++ explicit) agentId)
  | none => (firstUserText r.reqJson).map fun t => compound (text "msg:" ++ hash t) agentId

/-! ## What the key stands for -/

/-- The session of a request. -/
inductive SessionBase where
  | explicit (session : Text)
  | firstText (t : Text)
  deriving DecidableEq

/-- The session and the agent. -/
structure SessionIdentity where
  base : SessionBase
  agentId : Option Text
  deriving DecidableEq

def identityOf (r : SessionRequest) : Option SessionIdentity :=
  let agentId := normalizedHeader lc r.headers CLAUDE_AGENT_ID_HEADER
  match normalizedHeader lc r.headers STICKY_SESSION_HEADER with
  | some session => some { base := .explicit session, agentId }
  | none => (firstUserText r.reqJson).map fun t => { base := .firstText t, agentId }

/-- The key of an identity. -/
def keyOf (hash : Text → Text) (i : SessionIdentity) : Text :=
  match i.base with
  | .explicit session => compound (text "hdr:" ++ session) i.agentId
  | .firstText t => compound (text "msg:" ++ hash t) i.agentId

theorem deriveSessionKey_eq (hash : Text → Text) (r : SessionRequest) :
    deriveSessionKey lc hash r = (identityOf lc r).map (keyOf hash) := by
  rw [deriveSessionKey, identityOf]
  cases normalizedHeader lc r.headers STICKY_SESSION_HEADER with
  | some explicit => rfl
  | none =>
    rw [Option.map_map]
    rfl

end Request

/-! ## Keys that are equal -/

theorem append_compound (t base : Text) (agentId : Option Text) :
    t ++ compound base agentId = compound (t ++ base) agentId := by
  cases agentId with
  | none => rfl
  | some agent => simp only [compound, List.append_assoc]

theorem compound_inj {base base' : Text} (h : (0x3A : CodeUnit) ∉ base)
    (h' : (0x3A : CodeUnit) ∉ base') {agentId agentId' : Option Text} :
    compound base agentId = compound base' agentId' ↔ base = base' ∧ agentId = agentId' := by
  -- the units before the first colon are the base
  have hbase : ∀ {b : Text} (a : Option Text), (0x3A : CodeUnit) ∉ b →
      (compound b a).takeWhile (· ≠ 0x3A) = b := by
    intro b a hb
    have hkept : ∀ c ∈ b, decide (c ≠ 0x3A) = true := by
      intro c hc
      rw [decide_eq_true_eq]
      rintro rfl
      exact hb hc
    cases a with
    | none => exact List.takeWhile_eq_self_iff.mpr hkept
    | some agent =>
      rw [compound, List.append_assoc, List.takeWhile_append_of_pos hkept]
      exact List.append_nil b
  constructor
  · intro heq
    have hsame : base = base' := by
      rw [← hbase agentId h, heq, hbase agentId' h']
    subst hsame
    refine ⟨rfl, ?_⟩
    cases agentId with
    | none =>
      cases agentId' with
      | none => rfl
      | some agent' =>
        have hlength := congrArg List.length heq
        simp only [compound, List.length_append] at hlength
        have hpos : 0 < SEPARATOR.length := by decide
        omega
    | some agent =>
      cases agentId' with
      | none =>
        have hlength := congrArg List.length heq
        simp only [compound, List.length_append] at hlength
        have hpos : 0 < SEPARATOR.length := by decide
        omega
      | some agent' =>
        exact congrArg some (List.append_cancel_left heq)
  · rintro ⟨rfl, rfl⟩
    rfl

/-- **Two identities have one key** when they are the same, or both have explicit sessions and the
sessions and the agents, joined, are one text. -/
theorem keyOf_eq_iff {hash : Text → Text} (hinj : Function.Injective hash)
    (hcolon : ∀ t, (0x3A : CodeUnit) ∉ hash t) (i j : SessionIdentity) :
    keyOf hash i = keyOf hash j ↔ i = j ∨ ∃ s s', i.base = .explicit s ∧ j.base = .explicit s' ∧
      compound s i.agentId = compound s' j.agentId := by
  obtain ⟨base, agentId⟩ := i
  obtain ⟨base', agentId'⟩ := j
  have hheads : ∀ (b b' : Text) (a a' : Option Text),
      compound (text "hdr:" ++ b) a ≠ compound (text "msg:" ++ b') a' := by
    intro b b' a a' heq
    rw [← append_compound, ← append_compound] at heq
    exact absurd (List.cons.inj heq).1 (by decide)
  cases base with
  | explicit s =>
    cases base' with
    | explicit s' =>
      simp only [keyOf, SessionBase.explicit.injEq]
      rw [← append_compound, ← append_compound, List.append_right_inj]
      constructor
      · intro heq
        exact .inr ⟨s, s', rfl, rfl, heq⟩
      · rintro (⟨rfl, rfl⟩ | ⟨t, t', rfl, rfl, heq⟩)
        · rfl
        · exact heq
    | firstText t' =>
      simp only [SessionIdentity.mk.injEq, reduceCtorEq, false_and, and_false,
        exists_false, or_false, iff_false]
      exact hheads s (hash t') agentId agentId'
  | firstText t =>
    cases base' with
    | explicit s' =>
      simp only [SessionIdentity.mk.injEq, reduceCtorEq, false_and,
        exists_false, or_false, iff_false]
      exact fun heq => hheads s' (hash t) agentId' agentId heq.symm
    | firstText t' =>
      simp only [keyOf, SessionIdentity.mk.injEq, SessionBase.firstText.injEq, reduceCtorEq,
        false_and, exists_false, or_false]
      rw [← append_compound, ← append_compound, List.append_right_inj,
        compound_inj (hcolon t) (hcolon t'), hinj.eq_iff]

end LlmRelay.Sessions
